import PitFleet.Vehicle.Basic

/-!
# Tracks

What the proximity check sees of a vehicle: where it is, how it moves, how much room it needs and
where it will be. Vehicles and snapshots both have a track.
-/

namespace PitFleet

structure Track (α : Type) where
  id : String
  category : Category
  position : Position α
  /-- In km/h. -/
  speed : α
  heading : α
  active : Bool
  safetyRadius : α
  /-- The position so many seconds from now. -/
  predict : α → Position α

/-- A copy of what a vehicle shows at one moment. The fields are taken as they are. -/
structure Snapshot (α : Type) where
  id : String
  category : Category
  position : Position α
  speed : α
  heading : α
  payload : α
  fuelLevel : α
  active : Bool
  deriving Repr

variable {α : Type} [Scalar α]

/-- A vehicle needs the room that its own specification asks for. -/
def Vehicle.track (v : Vehicle α) : Track α where
  id := v.id
  category := v.category
  position := v.position
  speed := v.telemetry.speed
  heading := v.telemetry.heading
  active := v.active
  safetyRadius := v.spec.safetyRadius
  predict := v.predict

def Vehicle.snapshot (v : Vehicle α) : Snapshot α where
  id := v.id
  category := v.category
  position := v.position
  speed := v.telemetry.speed
  heading := v.telemetry.heading
  payload := v.telemetry.payload
  fuelLevel := v.telemetry.fuelLevel
  active := v.active

namespace Snapshot

/-- An active vehicle without load and with a full tank. -/
def new (id : String) (category : Category) (position : Position α) (speed heading : α) :
    Snapshot α where
  id := id
  category := category
  position := position
  speed := speed
  heading := heading
  payload := 0.0
  fuelLevel := 100.0
  active := true

/-- A snapshot needs the room that its category asks for. -/
def safetyRadius (s : Snapshot α) : α :=
  s.category.spec.safetyRadius

def predict (s : Snapshot α) (seconds : α) : Position α :=
  s.position.project s.speed s.heading seconds

def track (s : Snapshot α) : Track α where
  id := s.id
  category := s.category
  position := s.position
  speed := s.speed
  heading := s.heading
  active := s.active
  safetyRadius := s.safetyRadius
  predict := s.predict

end Snapshot

end PitFleet
