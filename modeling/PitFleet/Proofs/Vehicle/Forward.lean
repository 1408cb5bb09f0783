import Mathlib
import PitFleet.Proofs.Vehicle.Envelope

/-!
# Vehicles drive forward

A specification need not be sound: a setter whose limit is below zero faults, and a load may lower a
target below zero. In exact arithmetic no speed ever is below zero all the same, and no target is if
the top speed is not (`Forward.performAll`).
-/

namespace PitFleet.Vehicle

variable {v w : Vehicle ℝ}

theorem limit_mem {l x y : ℝ} (h : limit l x = .ok y) : 0 ≤ y ∧ y ≤ l := by
  have hnumber : ¬ Scalar.isNaN x = true := Bool.false_ne_true
  have hl : (0.0 : ℝ) ≤ l := by
    by_contra hlow
    rw [limit, if_neg hnumber, Scalar.clamp, if_neg hlow] at h
    cases h
  obtain rfl : limited l x = y := Except.ok.inj ((limit_eq hl x).symm.trans h)
  rw [← zero_real]
  exact limited_mem hl x

/-- A setter that does not fault has set a value within its limit. -/
theorem exists_of_set {l x : ℝ} {f : ℝ → Vehicle ℝ} (h : (do return f (← limit l x)) = .ok w) :
    ∃ y, (0 ≤ y ∧ y ≤ l) ∧ w = f y := by
  rcases hl : limit l x with fault | y <;> rw [hl] at h <;> cases h
  exact ⟨y, limit_mem hl, rfl⟩

/-- The vehicle does not drive backwards, and is not told to unless its top speed is below zero. -/
structure Forward (v : Vehicle ℝ) : Prop where
  speed : 0 ≤ v.telemetry.speed
  payload : 0 ≤ v.telemetry.payload
  maxPayload : 0 < v.telemetry.payload → v.telemetry.payload ≤ v.spec.maxPayload
  targetSpeed : 0 ≤ v.spec.maxSpeed → 0 ≤ v.targetSpeed

namespace Forward

theorem withSpec (id : String) (category : Category) (spec : Spec ℝ) (start : Position ℝ) :
    (withSpec id category spec start).Forward :=
  ⟨zero_real.ge, zero_real.ge, fun h => absurd h zero_real.not_gt, fun _ => zero_real.ge⟩

section Step

variable (h : v.Forward)
include h

theorem nextSpeed_nonneg (dt : ℝ) : 0 ≤ v.nextSpeed dt := by
  simp only [nextSpeed, kmh_real, zero_real, max_real]
  split
  · exact h.speed
  · exact div_nonneg (le_max_right _ _) (by norm_num)

theorem deratedTarget_nonneg (htop : 0 ≤ v.spec.maxSpeed) : 0 ≤ v.deratedTarget := by
  have htarget := h.targetSpeed htop
  rcases h.payload.eq_or_lt with hempty | hloaded
  · rw [deratedTarget_of_unloaded (.inr hempty.ge)]
    exact htarget
  · exact Vehicle.deratedTarget_nonneg htarget htop ⟨h.payload, h.maxPayload hloaded⟩

theorem move (dt : ℝ) : (v.move dt).Forward := by
  have hspeed := h.nextSpeed_nonneg dt
  have hdriven : Forward { v with telemetry.speed := v.nextSpeed dt } := { h with speed := hspeed }
  exact ⟨hspeed, h.payload, h.maxPayload, hdriven.deratedTarget_nonneg⟩

theorem perform {op : Operation ℝ} (hop : v.perform op = .ok w) : w.Forward := by
  cases op with
  | setTargetSpeed speed =>
    obtain ⟨x, hx, rfl⟩ := exists_of_set hop
    exact { h with targetSpeed := fun _ => hx.1 }
  | setSpeed speed =>
    obtain ⟨x, hx, rfl⟩ := exists_of_set hop
    exact { h with speed := hx.1 }
  | setPayload tonnes =>
    obtain ⟨x, hx, rfl⟩ := exists_of_set hop
    exact { h with payload := hx.1, maxPayload := fun _ => hx.2 }
  | setHeading | setActive | setCycle | predict =>
    cases hop
    exact { h with }
  | advance dt =>
    cases hop
    unfold Vehicle.advance
    split
    · exact h.move dt
    · exact h

end Step

theorem performAll : ∀ (ops : List (Operation ℝ)) {v w : Vehicle ℝ},
    v.Forward → v.performAll ops = .ok w → w.Forward
  | [], _, _, hv, h => by
    cases h
    exact hv
  | op :: ops, v, w, hv, h => by
    rw [Vehicle.performAll] at h
    rcases hop : v.perform op with fault | u <;> rw [hop] at h
    · cases h
    · exact performAll ops (hv.perform hop) h

end Forward

end PitFleet.Vehicle
