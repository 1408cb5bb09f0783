import PitFleet.Fleet.Navigation
import PitFleet.Proximity.Alert
import PitFleet.Vehicle.Motion

/-!
# Fleets

Vehicles in a fixed order, and how each of them navigates, by the vehicle's name. In a step every
active vehicle that is no excavator navigates and then every vehicle moves.
-/

namespace PitFleet

structure Fleet (α : Type) where
  layout : Layout α
  vehicles : List (Vehicle α)
  navigation : Registry (Navigation α)

inductive SetupError
  | unknownWaypoint (name : String)
  | duplicateVehicle (id : String)
  | unknownCategory (tag : String)
  | unknownCycle (tag : String)
  | indexOutOfRange (vehicle : String) (index length : Nat)
  deriving DecidableEq, Repr

def SetupError.message : SetupError → String
  | unknownWaypoint name => "Unknown waypoint: " ++ name
  | duplicateVehicle id => "Duplicate vehicle id: " ++ id
  | unknownCategory tag => "Unknown vehicle category: " ++ tag
  | unknownCycle tag => "Unknown cycle state: " ++ tag
  | indexOutOfRange vehicle index length =>
    "Vehicle " ++ vehicle ++ " starts at waypoint index " ++ toString index
      ++ " but its route has " ++ toString length ++ " waypoints"

namespace Fleet

variable {α : Type} [Scalar α]

def new (layout : Layout α) : Fleet α :=
  ⟨layout, [], .empty⟩

def vehicle? (f : Fleet α) (id : String) : Option (Vehicle α) :=
  f.vehicles.find? (·.id = id)

def navigation? (f : Fleet α) (id : String) : Option (Navigation α) :=
  f.navigation.get? id

def size (f : Fleet α) : Nat :=
  f.vehicles.length

/-- Puts the vehicle last, unchecked. -/
def push (f : Fleet α) (v : Vehicle α) (n : Navigation α) : Fleet α :=
  { f with vehicles := f.vehicles ++ [v], navigation := f.navigation.insert v.id n }

/-- The first name of the way out or of the haul route that the layout does not know. -/
def unknownWaypoint? (layout : Layout α) (n : Navigation α) : Option String :=
  (n.route.waypoints ++ n.haulRoute.waypoints).find? (!layout.contains ·)

/-- Puts the vehicle last if its name is new, all its waypoints are known and its index lies within
its route. -/
def add (f : Fleet α) (v : Vehicle α) (n : Navigation α) : Except SetupError (Fleet α) :=
  if f.navigation.contains v.id then .error (.duplicateVehicle v.id)
  else
    match unknownWaypoint? f.layout n with
    | some name => .error (.unknownWaypoint name)
    | none =>
      if n.route.isEmpty ∨ n.index < n.route.length then .ok (f.push v n)
      else .error (.indexOutOfRange v.id n.index n.route.length)

/-- Vehicles that steer by themselves. -/
def Steers (v : Vehicle α) : Prop :=
  v.active = true ∧ v.category ≠ .excavator

instance (v : Vehicle α) : Decidable (Steers v) :=
  inferInstanceAs (Decidable (_ ∧ _))

def stepVehicle (layout : Layout α) (dt : α) (v : Vehicle α)
    (navigation : Registry (Navigation α)) :
    Except Fault (Vehicle α × Registry (Navigation α)) := do
  if Steers v then
    match navigation.get? v.id with
    | some n =>
      let (v, n) ← Navigation.navigate layout v n dt
      return (v.advance dt, navigation.insert v.id n)
    | none => return (v.advance dt, navigation)
  else return (v.advance dt, navigation)

def stepVehicles (layout : Layout α) (dt : α) :
    List (Vehicle α) → Registry (Navigation α) →
      Except Fault (List (Vehicle α) × Registry (Navigation α))
  | [], navigation => .ok ([], navigation)
  | v :: vs, navigation => do
    let (v, navigation) ← stepVehicle layout dt v navigation
    let (vs, navigation) ← stepVehicles layout dt vs navigation
    return (v :: vs, navigation)

/-- A span of time that is no step changes nothing. -/
def update (f : Fleet α) (dt : α) : Except Fault (Fleet α) := do
  if Scalar.IsStep dt then
    let (vehicles, navigation) ← stepVehicles f.layout dt f.vehicles f.navigation
    return { f with vehicles, navigation }
  else return f

/-- The states after the steps in the list, one after the other. -/
def updates (f : Fleet α) : List α → Except Fault (Fleet α)
  | [] => .ok f
  | dt :: dts => do (← f.update dt).updates dts

def telemetry (f : Fleet α) (now : Int64) : List (TelemetryPacket α) :=
  f.vehicles.map (·.packet now)

def alerts (f : Fleet α) (now : Int64) : List (CollisionAlert α) :=
  CollisionAlert.evaluate now (f.vehicles.map Vehicle.track)

end Fleet

end PitFleet
