import PitFleet.Layout
import PitFleet.Vehicle.Basic

/-!
# Navigation

How a vehicle follows its route. It steers at the current waypoint until it is near enough, then
at the next one, more slowly before a sharp turn. At the end of the route a haul truck stops and
waits, and when its waiting time is over it enters the next state of the haul cycle; a light
vehicle starts its round again.
-/

namespace PitFleet

structure Navigation (α : Type) where
  route : Route
  /-- The way out, of which the way back is the reverse. -/
  haulRoute : Route
  /-- The place of the current waypoint in the route. -/
  index : Nat
  /-- A waypoint nearer than this, in metres, is reached. -/
  arrivalThreshold : α
  /-- In seconds; it counts while `waiting` is set. -/
  waitTimer : α
  waiting : Bool
  deriving Repr

namespace Navigation

variable {α : Type} [Scalar α]

def following (route : Route) (index : Nat) (threshold : α) : Navigation α :=
  ⟨route, route, index, threshold, 0.0, false⟩

def waitingFor (route : Route) (seconds threshold : α) : Navigation α :=
  ⟨route, route, 0, threshold, seconds, true⟩

def withHaulRoute (n : Navigation α) (route : Route) : Navigation α :=
  { n with haulRoute := route }

def current? (n : Navigation α) : Option String :=
  n.route.get? n.index

def target? (n : Navigation α) (layout : Layout α) : Option (Position α) :=
  n.current?.bind layout.get?

/-! Speeds are in km/h, times in seconds and angles in degrees. -/

def haulSpeed : α := 35.0

def returnSpeed : α := 40.0

def approachSpeed : α := 10.0

def patrolSpeed : α := 45.0

def loadingTime : α := 120.0

def dumpingTime : α := 45.0

def sharpTurn : α := 30.0

/-- The speed on a stretch without a sharp turn. -/
def cruiseSpeed (v : Vehicle α) : α :=
  match v.category, v.cycle with
  | .lightVehicle, _ => patrolSpeed
  | _, .hauling => haulSpeed
  | _, .returning => returnSpeed
  | _, _ => v.targetSpeed

/-- The state after loading or dumping. The vehicle stands at the first waypoint of its new route,
so it sets out for the second. -/
def leave (v : Vehicle α) (n : Navigation α) : Except Fault (Vehicle α × Navigation α) := do
  match v.cycle with
  | .loading =>
    let v ← (v.setCycle .hauling).setPayload v.spec.maxPayload
    let v ← v.setTargetSpeed haulSpeed
    return (v, { n with route := n.haulRoute, index := 1 })
  | .dumping =>
    let v ← (v.setCycle .returning).setPayload 0.0
    let v ← v.setTargetSpeed returnSpeed
    return (v, { n with route := n.haulRoute.reversed, index := 1 })
  | _ => return (v, n)

def finish (v : Vehicle α) (n : Navigation α) : Except Fault (Vehicle α × Navigation α) := do
  let v ← v.setTargetSpeed 0.0
  if v.category = .lightVehicle then
    return (← v.setTargetSpeed patrolSpeed, { n with index := 0 })
  match v.cycle with
  | .hauling =>
    return (v.setCycle .dumping, { n with waiting := true, waitTimer := dumpingTime })
  | .returning =>
    return (v.setCycle .loading, { n with waiting := true, waitTimer := loadingTime })
  | _ => return (v, n)

def steer (v : Vehicle α) (target : Position α) : Vehicle α :=
  v.setHeading (v.position.bearing target)

def departureSpeed (v : Vehicle α) (next : Position α) : α :=
  if sharpTurn < Heading.difference (v.position.bearing next) v.telemetry.heading then
    approachSpeed
  else cruiseSpeed v

/-- The current waypoint is reached and the next one, if there is one, becomes current. -/
def arrive (layout : Layout α) (v : Vehicle α) (n : Navigation α) :
    Except Fault (Vehicle α × Navigation α) := do
  let n := { n with index := n.index + 1 }
  match n.current? with
  | none => finish v n
  | some name =>
    match layout.get? name with
    | none => return (v, n)
    | some next => return (← v.setTargetSpeed (departureSpeed v next), n)

/-- The waiting time runs down; when it is over the cycle goes on. -/
def wait (v : Vehicle α) (n : Navigation α) (dt : α) : Except Fault (Vehicle α × Navigation α) :=
  let n := { n with waitTimer := n.waitTimer - dt }
  if n.waitTimer ≤ 0.0 then leave v { n with waiting := false } else .ok (v, n)

def navigate (layout : Layout α) (v : Vehicle α) (n : Navigation α) (dt : α) :
    Except Fault (Vehicle α × Navigation α) :=
  if n.waiting then wait v n dt
  else
    match n.target? layout with
    | none => .ok (v, n)
    | some target =>
      let distance := v.position.distance target
      let v := steer v target
      if n.arrivalThreshold ≤ distance then .ok (v, n) else arrive layout v n

/-- A vehicle that is on its way faces its current waypoint. -/
def face (layout : Layout α) (v : Vehicle α) (n : Navigation α) : Vehicle α :=
  if n.waiting then v
  else
    match n.target? layout with
    | none => v
    | some target => steer v target

end Navigation

end PitFleet
