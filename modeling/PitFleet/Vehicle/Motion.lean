import PitFleet.Vehicle.Basic

/-!
# Motion of a vehicle

One step of `dt` seconds: the speed follows the target, a load lowers the target, the position
moves on at the new speed, fuel burns and the engine turns. An inactive vehicle and a span that is
no step change nothing.
-/

namespace PitFleet.Vehicle

variable {α : Type} [Scalar α]

/-- In m/s². -/
def accelerationRate : α := 2.0

/-- In m/s². -/
def brakingRate : α := 4.0

/-- A speed this close to the target, in m/s, is left alone. -/
def speedDeadBand : α := 0.01

/-- The part of the top speed that a full load costs. -/
def payloadDerate : α := 0.3

def idleRpm : α := 800.0

/-- What full speed adds to the idle engine speed. -/
def rpmSpan : α := 1400.0

/-- The speed as a part of the top speed. -/
def speedRatio (v : Vehicle α) : α :=
  if 0.0 < v.spec.maxSpeed then v.telemetry.speed / v.spec.maxSpeed else 0.0

/-- The speed in km/h after a step toward the target. -/
def nextSpeed (v : Vehicle α) (dt : α) : α :=
  let current := v.telemetry.speed * kmh
  let target := v.targetSpeed * kmh
  let gap := target - current
  if Scalar.abs gap ≤ speedDeadBand then v.telemetry.speed
  else
    let next :=
      if 0.0 < gap then Scalar.min (current + accelerationRate * dt) target
      else Scalar.max (current - brakingRate * dt) target
    Scalar.max next 0.0 / kmh

/-- The target of a loaded vehicle, no higher than its load allows. -/
def deratedTarget (v : Vehicle α) : α :=
  if v.spec.maxPayload ≤ 0.0 ∨ v.telemetry.payload ≤ 0.0 then v.targetSpeed
  else
    let load := v.telemetry.payload / v.spec.maxPayload
    let top := v.spec.maxSpeed * (1.0 - payloadDerate * load)
    if top < v.targetSpeed then top else v.targetSpeed

def nextPosition (v : Vehicle α) (dt : α) : Position α :=
  let speed := v.telemetry.speed * kmh
  if speed < negligibleSpeed then v.position
  else v.position.displace (speed * dt) v.telemetry.heading

/-- How hard the engine works for its fuel. -/
def loadFactor (v : Vehicle α) : α :=
  let factor := if 0.1 < v.telemetry.speed then 0.6 + 0.4 * v.speedRatio else 0.3
  if 0.0 < v.telemetry.payload ∧ 0.0 < v.spec.maxPayload then
    factor + 0.3 * (v.telemetry.payload / v.spec.maxPayload)
  else factor

/-- The fuel level in percent after a step; an idle vehicle at rest burns nothing. -/
def nextFuel (v : Vehicle α) (dt : α) : α :=
  if (v.telemetry.speed < 0.1 ∧ v.cycle = .idle) ∨ v.spec.fuelCapacity ≤ 0.0 then
    v.telemetry.fuelLevel
  else
    let burnt := v.spec.fuelBurnRate / 3600.0 * v.loadFactor * dt
    let litres := v.telemetry.fuelLevel / 100.0 * v.spec.fuelCapacity - burnt
    Scalar.max litres 0.0 / v.spec.fuelCapacity * 100.0

/-- The four stages of a step, each on what the one before it left. -/
def move (v : Vehicle α) (dt : α) : Vehicle α :=
  let v := { v with telemetry.speed := v.nextSpeed dt }
  let v := { v with targetSpeed := v.deratedTarget }
  let v := { v with position := v.nextPosition dt }
  let v := { v with telemetry.fuelLevel := v.nextFuel dt }
  { v with telemetry.engineRpm := idleRpm + v.speedRatio * rpmSpan }

def advance (v : Vehicle α) (dt : α) : Vehicle α :=
  if v.active = true ∧ Scalar.IsStep dt then v.move dt else v

end PitFleet.Vehicle
