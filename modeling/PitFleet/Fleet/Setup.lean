import PitFleet.Fleet.Basic
import PitFleet.Scenario

/-!
# Setting up a fleet

From a scenario, vehicle by vehicle, or as the built-in fleet of the built-in pit.
-/

namespace PitFleet

variable {α : Type} [Scalar α]

/-- How near a waypoint has to be, in metres, unless the scenario says otherwise. -/
def Category.arrivalThreshold : Category → α
  | haulTruck => 20.0
  | excavator => 5.0
  | lightVehicle => 15.0

namespace Scenario

def layout (s : Scenario α) : Layout α :=
  if s.waypoints.isEmpty then .pit
  else .ofList (s.waypoints.map fun w => (w.name, ⟨w.latitude, w.longitude, w.altitude⟩))

end Scenario

namespace VehicleSetup

def readCategory (s : VehicleSetup α) : Except SetupError Category :=
  match Category.ofTag? s.category with
  | some category => .ok category
  | none => .error (.unknownCategory s.category)

/-- A vehicle without a tag idles. -/
def readCycle (s : VehicleSetup α) : Except SetupError Cycle :=
  match s.cycle with
  | none => .ok .idle
  | some tag =>
    match Cycle.ofTag? tag with
    | some cycle => .ok cycle
    | none => .error (.unknownCycle tag)

def findStart (layout : Layout α) (s : VehicleSetup α) : Except SetupError (Position α) :=
  match layout.get? s.start with
  | some position => .ok position
  | none => .error (.unknownWaypoint s.start)

/-- The vehicle at its start, before it turns to its heading. -/
def vehicle (s : VehicleSetup α) (category : Category) (cycle : Cycle) (start : Position α) :
    Except Fault (Vehicle α) := do
  let v ← ((Vehicle.new s.id category start).setCycle cycle).setPayload s.payload
  let v ← v.setTargetSpeed s.targetSpeed
  let v ← v.setSpeed s.speed
  return v.setActive s.active

/-- A vehicle that starts on its way back drives the haul route in reverse. -/
def haulRoute (s : VehicleSetup α) (cycle : Cycle) : Route :=
  if cycle = .returning then Route.reversed ⟨s.route⟩ else ⟨s.route⟩

def navigation (s : VehicleSetup α) (category : Category) (cycle : Cycle) : Navigation α :=
  let threshold := s.arrivalThreshold.getD category.arrivalThreshold
  let index := s.waypointIndex.toNat
  let n : Navigation α :=
    if 0.0 < s.waitSeconds then
      { Navigation.waitingFor ⟨s.route⟩ s.waitSeconds threshold with index := index }
    else .following ⟨s.route⟩ index threshold
  n.withHaulRoute (s.haulRoute cycle)

/-- The vehicle turned to the heading that the scenario gives, or to its first waypoint. -/
def turn (layout : Layout α) (s : VehicleSetup α) (v : Vehicle α) (n : Navigation α) :
    Vehicle α :=
  match s.heading with
  | some heading => v.setHeading heading
  | none => Navigation.face layout v n

end VehicleSetup

namespace Fleet

def addSetup (f : Fleet α) (s : VehicleSetup α) : ExceptT SetupError (Except Fault) (Fleet α) := do
  let category ← s.readCategory
  let cycle ← s.readCycle
  let start ← s.findStart f.layout
  let v ← ExceptT.lift (s.vehicle category cycle start)
  let n := s.navigation category cycle
  f.add (s.turn f.layout v n) n

def addSetups (f : Fleet α) : List (VehicleSetup α) → ExceptT SetupError (Except Fault) (Fleet α)
  | [] => return f
  | s :: ss => do (← f.addSetup s).addSetups ss

/-- The fleet that a scenario describes, or what is wrong with its first faulty vehicle. -/
def ofScenario (s : Scenario α) : ExceptT SetupError (Except Fault) (Fleet α) :=
  (new s.layout).addSetups s.vehicles

/-- The built-in fleet: one truck that loads, two on their way out with a full load, an excavator
and a light vehicle on patrol. -/
def pit : Fleet α :=
  let layout : Layout α := .pit
  let startAt (name : String) : Position α := (layout.get? name).getD ⟨0.0, 0.0, 0.0⟩
  let loading : Vehicle α :=
    { Vehicle.new "HT-101" .haulTruck (startAt "PIT_LOAD_1") with cycle := .loading }
  let loaded (id start : String) : Vehicle α :=
    { Vehicle.new id .haulTruck (startAt start) with
      cycle := .hauling
      telemetry := { Telemetry.atRest with payload := Category.haulTruck.spec.maxPayload }
      targetSpeed := Navigation.haulSpeed }
  let excavator : Vehicle α := Vehicle.new "EX-201" .excavator (startAt "PIT_LOAD_1")
  let patrol : Vehicle α :=
    { Vehicle.new "LV-301" .lightVehicle (startAt "PATROL_1") with
      cycle := .hauling
      targetSpeed := Navigation.patrolSpeed }
  let members : List (Vehicle α × Navigation α) := [
    (loading, .waitingFor .haul Navigation.loadingTime 20.0),
    (loaded "HT-102" "ROAD_1", .following .haul 4 20.0),
    (loaded "HT-103" "DUMP_APPROACH", .following .haul 6 20.0),
    (excavator, .waitingFor ⟨["PIT_LOAD_1"]⟩ 0.0 5.0),
    (patrol, .following .patrol 1 15.0)]
  members.foldl (fun f (v, n) => f.push (Navigation.face layout v n) n) (new layout)

end Fleet

end PitFleet
