import PitFleet.Number.Double
import PitFleet.Proofs.Vehicle.Operations

/-!
# Predictions agree with motion

A step takes a vehicle to where its old position is projected at the new speed and the old heading
(`position_move`). A vehicle whose speed is close enough to its target keeps it
(`nextSpeed_of_onTarget`), and then the step takes it to where it was predicted to be
(`advance_meets_prediction`). Predictions are asked for and leave no trace: a vehicle does the same
without them (`performAll_unasked`).
-/

namespace PitFleet.Vehicle

variable {α : Type} [Scalar α] {v : Vehicle α} {dt : α}

/-- The speed is so close to the target that it is left alone. -/
def OnTarget (v : Vehicle α) : Prop :=
  Scalar.abs (v.targetSpeed * kmh - v.telemetry.speed * kmh) ≤ speedDeadBand

theorem nextSpeed_of_onTarget (h : v.OnTarget) (dt : α) : v.nextSpeed dt = v.telemetry.speed :=
  if_pos h

theorem advance_of_active (hactive : v.active = true) (hdt : Scalar.IsStep dt) :
    v.advance dt = v.move dt :=
  if_pos ⟨hactive, hdt⟩

theorem speed_move (v : Vehicle α) (dt : α) : (v.move dt).telemetry.speed = v.nextSpeed dt :=
  rfl

/-- The position is moved on last but for fuel and engine, which it does not depend on. -/
theorem position_move (v : Vehicle α) (dt : α) : (v.move dt).position
    = v.position.project (v.move dt).telemetry.speed v.telemetry.heading dt :=
  rfl

theorem altitude_predict (v : Vehicle α) (seconds : α) :
    (v.predict seconds).altitude = v.position.altitude :=
  altitude_nextPosition v seconds

def Operation.isPrediction : Operation α → Bool
  | .predict _ => true
  | _ => false

theorem performAll_unasked : ∀ (ops : List (Operation α)) (v : Vehicle α),
    v.performAll (ops.filter (!·.isPrediction)) = v.performAll ops
  | [], _ => rfl
  | op :: ops, v => by
    have ih := performAll_unasked ops
    cases op with
    | predict seconds => exact ih v
    | setTargetSpeed | setSpeed | setHeading | setPayload | setActive | setCycle | advance =>
      rw [List.filter_cons_of_pos rfl, performAll, performAll]
      exact congrArg _ (funext ih)

/-- A step takes the vehicle along its old heading at its new speed, to where it was predicted to be
if that is its old speed; and no prediction, wherever it is asked for, changes anything. -/
theorem advance_meets_prediction (hactive : v.active = true) (hdt : Scalar.IsStep dt) :
    (v.advance dt).position
        = v.position.project (v.advance dt).telemetry.speed v.telemetry.heading dt
      ∧ (v.OnTarget → (v.advance dt).telemetry.speed = v.telemetry.speed)
      ∧ ((v.advance dt).telemetry.speed = v.telemetry.speed →
        (v.advance dt).position = v.predict dt)
      ∧ (v.predict dt).altitude = v.position.altitude
      ∧ (v.advance dt).position.altitude = v.position.altitude
      ∧ (∀ seconds, v.perform (.predict seconds) = .ok v)
      ∧ ∀ ops, v.performAll (ops.filter (!·.isPrediction)) = v.performAll ops := by
  have hposition := position_move v dt
  rw [← advance_of_active hactive hdt] at hposition
  refine ⟨hposition, fun hclose => ?_, fun hspeed => ?_, altitude_predict v dt,
    (sameBuild_advance v dt).altitude, fun _ => rfl, fun ops => performAll_unasked ops v⟩
  · rw [advance_of_active hactive hdt, speed_move, nextSpeed_of_onTarget hclose]
  · rw [hposition, hspeed]
    rfl

/-- A haul truck that drives east at its target speed. -/
def eastboundTruck : Vehicle Float :=
  { Vehicle.new "HT-1" .haulTruck ⟨-20.122, -43.952, 820.0⟩ with
    telemetry := ⟨36.0, 90.0, 220.0, 50.0, 1920.0⟩
    targetSpeed := 36.03 }

/-- The truck is not quite at its target and gets no closer. -/
theorem advance_meets_prediction_eastbound : eastboundTruck.active = true
    ∧ Scalar.IsStep (2.0 : Float) ∧ eastboundTruck.OnTarget
    ∧ (eastboundTruck.advance 2.0).position = eastboundTruck.predict 2.0 := by
  have hstep : Scalar.IsStep (2.0 : Float) := by decide +kernel
  have hclose : eastboundTruck.OnTarget := by
    unfold OnTarget
    decide +kernel
  obtain ⟨-, hkeeps, hmeets, -⟩ := advance_meets_prediction (v := eastboundTruck) rfl hstep
  exact ⟨rfl, hstep, hclose, hmeets (hkeeps hclose)⟩

end PitFleet.Vehicle
