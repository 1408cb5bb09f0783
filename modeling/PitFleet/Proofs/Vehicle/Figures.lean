import Mathlib
import PitFleet.Proofs.Scalar.Exact
import PitFleet.Proofs.Vehicle.Operations

/-!
# Exact motion over the reals

Whatever is asked of it, a vehicle in exact arithmetic has the figures of a vehicle over the reals
that is asked much the same, with a harmless number for every argument that is none
(`Figures.performed`). Every division of a step is guarded: its divisor is a number and not zero.
-/

namespace PitFleet.Vehicle

open Exact

/-- All that motion reads of a vehicle, its place and its heading apart. -/
structure Figures (v : Vehicle Exact) (u : Vehicle ℝ) : Prop where
  maxSpeed : v.spec.maxSpeed = number u.spec.maxSpeed
  maxPayload : v.spec.maxPayload = number u.spec.maxPayload
  fuelCapacity : v.spec.fuelCapacity = number u.spec.fuelCapacity
  fuelBurnRate : v.spec.fuelBurnRate = number u.spec.fuelBurnRate
  cycle : v.cycle = u.cycle
  speed : v.telemetry.speed = number u.telemetry.speed
  payload : v.telemetry.payload = number u.telemetry.payload
  fuelLevel : v.telemetry.fuelLevel = number u.telemetry.fuelLevel
  engineRpm : v.telemetry.engineRpm = number u.telemetry.engineRpm
  targetSpeed : v.targetSpeed = number u.targetSpeed
  active : v.active = u.active

/-- What a setter takes for an argument that is not a number it also takes for a number. -/
theorem limited_number {l : ℝ} (h : 0 ≤ l) (x : Exact) :
    limited (number l) x = number (limited l (x.settle l)) := by
  have hlow : limited l 0 = 0 := limited_of_mem (by norm_num) h
  have htop : limited l l = l := limited_of_mem (by norm_num [h]) le_rfl
  rcases x with _ | (_ | _) | x
  case nan =>
    rw [settle, hlow, limited, isNaN_nan, if_pos rfl, zero_eq]
  case infinite.true =>
    rw [settle, hlow, limited, isNaN_infinite, if_neg Bool.false_ne_true, zero_eq,
      if_pos (infinite_lt_number 0)]
  case infinite.false =>
    rw [settle, htop, limited, isNaN_infinite, if_neg Bool.false_ne_true, zero_eq,
      if_neg (not_infinite_lt_number 0), if_pos (number_lt_infinite l)]
  case number =>
    simp only [limited, settle, ofScientific_eq, isNaN_number, number_lt, number_ite]
    rfl

theorem limited_infinite {l : ℝ} (h : 0 ≤ l) :
    limited (number l) (infinite false) = number l := by
  rw [limited_number h, settle, limited_of_mem (zero_real.trans_le h) le_rfl]

/-- The same of a vehicle over the reals. -/
def Operation.settled (s : Spec ℝ) : Operation Exact → Operation ℝ
  | .setTargetSpeed speed => .setTargetSpeed (speed.settle s.maxSpeed)
  | .setSpeed speed => .setSpeed (speed.settle s.maxSpeed)
  | .setHeading _ => .setHeading 0
  | .setPayload tonnes => .setPayload (tonnes.settle s.maxPayload)
  | .setActive active => .setActive active
  | .setCycle cycle => .setCycle cycle
  | .predict _ => .predict 0
  | .advance dt => .advance (dt.settle 0)

namespace Figures

variable {v : Vehicle Exact} {u : Vehicle ℝ} (h : Figures v u)
include h

theorem withSpeed {x : Exact} {y : ℝ} (hx : x = number y) :
    Figures { v with telemetry.speed := x } { u with telemetry.speed := y } :=
  { h with speed := hx }

theorem withTarget {x : Exact} {y : ℝ} (hx : x = number y) :
    Figures { v with targetSpeed := x } { u with targetSpeed := y } :=
  { h with targetSpeed := hx }

theorem withPayload {x : Exact} {y : ℝ} (hx : x = number y) :
    Figures { v with telemetry.payload := x } { u with telemetry.payload := y } :=
  { h with payload := hx }

theorem withFuel {x : Exact} {y : ℝ} (hx : x = number y) :
    Figures { v with telemetry.fuelLevel := x } { u with telemetry.fuelLevel := y } :=
  { h with fuelLevel := hx }

theorem withRpm {x : Exact} {y : ℝ} (hx : x = number y) :
    Figures { v with telemetry.engineRpm := x } { u with telemetry.engineRpm := y } :=
  { h with engineRpm := hx }

theorem displaced (d : ℝ) : Figures { v with position := v.nextPosition (number d) }
    { u with position := u.nextPosition d } :=
  { h with }

theorem speedRatio : v.speedRatio = number u.speedRatio := by
  unfold Vehicle.speedRatio
  rw [h.maxSpeed, h.speed, ofScientific_eq]
  simp only [number_lt]
  split
  case isTrue hpos =>
    rw [number_div]
    norm_num at hpos
    exact hpos.ne'
  case isFalse => rfl

theorem nextSpeed (d : ℝ) : v.nextSpeed (number d) = number (u.nextSpeed d) := by
  have hkmh : (kmh : Exact) = number kmh := number_div (by norm_num)
  have hup : (accelerationRate : Exact) = number accelerationRate := rfl
  have hdown : (brakingRate : Exact) = number brakingRate := rfl
  have hband : (speedDeadBand : Exact) = number speedDeadBand := rfl
  simp only [Vehicle.nextSpeed, hkmh, hup, hdown, hband, h.speed, h.targetSpeed, ofScientific_eq,
    number_mul, number_sub, number_add, abs_number, number_le, number_lt, number_min, number_max,
    number_ite, number_div kmh_ne_zero_real]

theorem deratedTarget : v.deratedTarget = number u.deratedTarget := by
  have hderate : (payloadDerate : Exact) = number payloadDerate := rfl
  simp only [Vehicle.deratedTarget, hderate, h.maxSpeed, h.maxPayload, h.payload, h.targetSpeed,
    ofScientific_eq, number_le]
  split
  case isTrue => rfl
  case isFalse hloaded =>
    have hne : u.spec.maxPayload ≠ 0 := by
      rintro hzero
      norm_num [hzero] at hloaded
    simp only [number_div hne, number_mul, number_sub, number_lt, number_ite]

theorem loadFactor : v.loadFactor = number u.loadFactor := by
  simp only [Vehicle.loadFactor, h.speedRatio, h.speed, h.payload, h.maxPayload, ofScientific_eq,
    number_mul, number_add, number_lt, number_ite]
  split
  case isTrue hloaded =>
    have hne : u.spec.maxPayload ≠ 0 := by
      have hpos := hloaded.2
      norm_num at hpos
      exact hpos.ne'
    simp only [number_div hne, number_mul, number_add]
  case isFalse => rfl

theorem nextFuel (d : ℝ) : v.nextFuel (number d) = number (u.nextFuel d) := by
  simp only [Vehicle.nextFuel, h.loadFactor, h.speed, h.fuelLevel, h.fuelCapacity,
    h.fuelBurnRate, h.cycle, ofScientific_eq, number_lt, number_le]
  split
  case isTrue => rfl
  case isFalse hburns =>
    have hne : u.spec.fuelCapacity ≠ 0 := by
      rintro hzero
      norm_num [hzero] at hburns
    have hhour : (3600.0 : ℝ) ≠ 0 := by norm_num
    have hwhole : (100.0 : ℝ) ≠ 0 := by norm_num
    simp only [number_div hne, number_div hhour, number_div hwhole, number_mul, number_sub,
      number_max]

theorem nextRpm :
    idleRpm + v.speedRatio * rpmSpan = number (idleRpm + u.speedRatio * rpmSpan) := by
  rw [h.speedRatio]
  rfl

theorem move (d : ℝ) : Figures (v.move (number d)) (u.move d) := by
  have hdriven := h.withSpeed (h.nextSpeed d)
  have haimed := hdriven.withTarget hdriven.deratedTarget
  have hmoved := haimed.displaced d
  have hburnt := hmoved.withFuel (hmoved.nextFuel d)
  exact hburnt.withRpm hburnt.nextRpm

theorem advance (dt : Exact) : Figures (v.advance dt) (u.advance (dt.settle 0)) := by
  simp only [Vehicle.advance, h.active, isStep_settle]
  split
  case isTrue hstep =>
    obtain ⟨d, rfl, -⟩ := isStep_iff.1 hstep.2
    exact h.move d
  case isFalse => exact h

theorem performed (hb : u.spec.Bounded) (op : Operation Exact) :
    Figures (v.performed op) (u.performed (op.settled u.spec)) := by
  have hspeed : 0 ≤ u.spec.maxSpeed := zero_real.ge.trans hb.maxSpeed
  have hload : 0 ≤ u.spec.maxPayload := zero_real.ge.trans hb.maxPayload
  cases op with
  | setTargetSpeed speed =>
    refine h.withTarget ?_
    rw [h.maxSpeed, limited_number hspeed]
  | setSpeed speed =>
    refine h.withSpeed ?_
    rw [h.maxSpeed, limited_number hspeed]
  | setPayload tonnes =>
    refine h.withPayload ?_
    rw [h.maxPayload, limited_number hload]
  | setActive active => exact { h with active := rfl }
  | setCycle cycle => exact { h with cycle := rfl }
  | setHeading | predict => exact { h with }
  | advance dt => exact h.advance dt

end Figures

end PitFleet.Vehicle
