import PitFleet.Telemetry

/-!
# Vehicles

A vehicle holds its own physical state. The setters keep it within the figures of its
specification; `Vehicle.advance` (in `PitFleet.Vehicle.Motion`) moves it on.
-/

namespace PitFleet

structure Vehicle (α : Type) where
  id : String
  category : Category
  spec : Spec α
  cycle : Cycle
  position : Position α
  telemetry : Telemetry α
  /-- In km/h. -/
  targetSpeed : α
  active : Bool
  deriving Repr

namespace Vehicle

variable {α : Type} [Scalar α]

/-- An active, idle vehicle at rest. -/
def withSpec (id : String) (category : Category) (spec : Spec α) (start : Position α) :
    Vehicle α where
  id := id
  category := category
  spec := spec
  cycle := .idle
  position := start
  telemetry := .atRest
  targetSpeed := 0.0
  active := true

def new (id : String) (category : Category) (start : Position α) : Vehicle α :=
  withSpec id category category.spec start

/-- A number between zero and `limit`; what is no number counts as zero. -/
def limit (limit x : α) : Except Fault α :=
  if Scalar.isNaN x = true then .ok 0.0 else Scalar.clamp 0.0 limit x

def setTargetSpeed (v : Vehicle α) (speed : α) : Except Fault (Vehicle α) :=
  return { v with targetSpeed := ← limit v.spec.maxSpeed speed }

def setSpeed (v : Vehicle α) (speed : α) : Except Fault (Vehicle α) :=
  return { v with telemetry.speed := ← limit v.spec.maxSpeed speed }

def setPayload (v : Vehicle α) (tonnes : α) : Except Fault (Vehicle α) :=
  return { v with telemetry.payload := ← limit v.spec.maxPayload tonnes }

def setHeading (v : Vehicle α) (heading : α) : Vehicle α :=
  { v with telemetry.heading := Heading.normalize heading }

def setActive (v : Vehicle α) (active : Bool) : Vehicle α :=
  { v with active := active }

def setCycle (v : Vehicle α) (cycle : Cycle) : Vehicle α :=
  { v with cycle := cycle }

/-- Where the vehicle will be if it keeps its speed and heading. -/
def predict (v : Vehicle α) (seconds : α) : Position α :=
  v.position.project v.telemetry.speed v.telemetry.heading seconds

def packet (v : Vehicle α) (now : Int64) : TelemetryPacket α where
  vehicleId := v.id
  timestamp := now
  category := v.category
  cycle := v.cycle
  position := v.position
  telemetry := v.telemetry

end Vehicle

end PitFleet
