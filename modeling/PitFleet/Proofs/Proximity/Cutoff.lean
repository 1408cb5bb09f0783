import Mathlib.Analysis.InnerProductSpace.PiL2
import PitFleet.Proofs.Proximity.Alarm
import PitFleet.Proofs.Proximity.Divergence

/-!
# The cutoff loses nothing on straight tracks

Vehicles that keep to their top speeds close a hundred metres in three seconds at most. Where a pair
from beyond the cutoff is nearest before the horizon, its squared separation has lost no more than
the cutoff leaves above any two safety radii (`clear_of_cutoff`). Two light vehicles can come within
their room at the horizon, where an approach has no severity.
-/

namespace PitFleet

open Approach

/-- East and north in metres. -/
abbrev Plane := EuclideanSpace ℝ (Fin 2)

theorem norm_east (x : ℝ) : ‖(!₂[x, 0] : Plane)‖ = |x| := by
  rw [EuclideanSpace.norm_eq, Fin.sum_univ_two]
  simp [Real.sqrt_sq_eq_abs]

/-- Seen from the first vehicle, the second one is at `p` now and goes on at the velocity `v`. -/
structure Track.Straight (a b : Track ℝ) (p v : Plane) : Prop where
  now : a.position.distance b.position = ‖p‖
  later : ∀ k, 0 < k → k ≤ sampleCount → a.separation b k = ‖p + (sampleTime k : ℝ) • v‖

namespace Track.Straight

variable {a b : Track ℝ} {p v : Plane}

theorem separation_eq (h : a.Straight b p v) {k : ℕ} (hpos : 0 < k) (hk : k ≤ sampleCount) :
    a.separation b k = ‖p + ((k : ℝ) / 2) • v‖ := by
  rw [h.later k hpos hk, sampleTime_real]

theorem samples_eq (h : a.Straight b p v) : ∀ k, k ≤ sampleCount →
    samples (a.position.distance b.position) (a.separation b) k = ‖p + ((k : ℝ) / 2) • v‖
  | 0, _ => by simp [samples, h.now]
  | k + 1, hk => by
    exact h.separation_eq k.succ_pos hk

theorem convexSamples (h : a.Straight b p v) :
    ConvexSamples (a.position.distance b.position) (a.separation b) := by
  refine ⟨fun k hk => ?_, fun k hk => ?_⟩
  · rw [h.samples_eq k hk]
    exact norm_nonneg _
  · rw [h.samples_eq k (by omega), h.samples_eq (k + 1) (by omega), h.samples_eq (k + 2) hk]
    have hmid : (p + ((k : ℝ) / 2) • v) + (p + (((k + 2 : ℕ) : ℝ) / 2) • v)
        = (2 : ℝ) • (p + (((k + 1 : ℕ) : ℝ) / 2) • v) := by
      push_cast
      module
    have htriangle := norm_add_le (p + ((k : ℝ) / 2) • v) (p + (((k + 2 : ℕ) : ℝ) / 2) • v)
    rw [hmid, norm_smul, Real.norm_two] at htriangle
    linarith

/-- A bound on the loss up to `t`, where the separation is not above the one at a later `u`. -/
theorem sq_norm_le {t u : ℝ} (ht : 0 ≤ t) (htu : t < u) (h : ‖p + t • v‖ ≤ ‖p + u • v‖) :
    ‖p‖ ^ 2 - t * u * ‖v‖ ^ 2 ≤ ‖p + t • v‖ ^ 2 := by
  have hexpand (s : ℝ) : ‖p + s • v‖ ^ 2 = ‖p‖ ^ 2 + 2 * s * inner ℝ p v + s ^ 2 * ‖v‖ ^ 2 := by
    rw [norm_add_sq_real, real_inner_smul_right, norm_smul, mul_pow, Real.norm_eq_abs, sq_abs]
    ring
  have hsq : ‖p + t • v‖ ^ 2 ≤ ‖p + u • v‖ ^ 2 := pow_le_pow_left₀ (norm_nonneg _) h 2
  rw [hexpand t, hexpand u] at hsq
  have hinner : 0 ≤ 2 * inner ℝ p v + (t + u) * ‖v‖ ^ 2 := by
    by_contra hc
    have hneg := mul_neg_of_pos_of_neg (sub_pos.2 htu) (not_le.1 hc)
    nlinarith only [hneg, hsq]
  rw [hexpand t]
  nlinarith only [mul_nonneg ht hinner]

end Track.Straight

namespace Category

theorem maxSpeed_le (c : Category) : (c.spec : Spec ℝ).maxSpeed ≤ 60 := by
  cases c <;> norm_num [spec]

theorem safetyRadius_le (c : Category) : (c.spec : Spec ℝ).safetyRadius ≤ 30 := by
  cases c <;> norm_num [spec]

end Category

namespace Assessment

variable {α : Type} [Scalar α]

/-- What the present says of a pair, however far apart. -/
def outlookUncut (a b : Track α) : Outlook α :=
  if ¬ movingSpeed < a.speed ∧ ¬ movingSpeed < b.speed then .noRisk
  else
    let distance := a.position.distance b.position
    if distance < a.combinedRadius b then .breached distance
    else .undecided distance

/-- What a pair amounts to when no pair is too far apart to be looked at. -/
def assessUncut (a b : Track α) : Option (Assessment α) :=
  ofOutlook scan a b (outlookUncut a b)

theorem outlook_of_near {a b : Track α} (h : ¬ cutoffDistance < a.position.distance b.position) :
    outlook a b = outlookUncut a b := by
  simp only [outlook, outlookUncut, if_neg h]

section Margin

variable {a b : Track ℝ} {p v : Plane}

/-- A pair from beyond the cutoff is outside of any room wherever it is nearest before the
horizon. -/
theorem clear_of_cutoff (hp : 500 < ‖p‖) (hv : ‖v‖ ≤ 100 / 3) {k : ℕ} (hk : k < sampleCount)
    (hle : ‖p + ((k : ℝ) / 2) • v‖ ≤ ‖p + ((sampleCount : ℝ) / 2) • v‖) :
    60 ≤ ‖p + ((k : ℝ) / 2) • v‖ := by
  have hcast : (k : ℝ) ≤ 29 := by exact_mod_cast Nat.le_of_lt_succ hk
  have hpos : (0 : ℝ) ≤ k := k.cast_nonneg
  have hcount : (sampleCount : ℝ) = 30 := by norm_num [sampleCount]
  rw [hcount] at hle
  have hvertex := Track.Straight.sq_norm_le (by positivity) (by linarith) hle
  have hspeed : ‖v‖ ^ 2 ≤ (100 / 3) ^ 2 := pow_le_pow_left₀ (norm_nonneg v) hv 2
  have hloss : (k : ℝ) / 2 * (30 / 2) * ‖v‖ ^ 2 ≤ 29 / 2 * (30 / 2) * (100 / 3) ^ 2 :=
    mul_le_mul (by linarith) hspeed (by positivity) (by norm_num)
  by_contra hc
  have hnear : ‖p + ((k : ℝ) / 2) • v‖ ^ 2 ≤ 60 ^ 2 :=
    pow_le_pow_left₀ (norm_nonneg _) (not_le.1 hc).le 2
  nlinarith only [hp, hvertex, hloss, hnear]

variable (ha : a.safetyRadius = a.category.spec.safetyRadius)
  (hb : b.safetyRadius = b.category.spec.safetyRadius)
  (hstraight : a.Straight b p v)
  (hspeed : ‖v‖ ≤ (a.category.spec.maxSpeed + b.category.spec.maxSpeed) * kmh)
include ha hb hstraight hspeed

theorem assessUncut_of_cutoff (hfar : cutoffDistance < a.position.distance b.position) :
    assessUncut a b = none := by
  have hroom : a.combinedRadius b ≤ 60 := by
    rw [Track.combinedRadius, ha, hb]
    linarith [a.category.safetyRadius_le, b.category.safetyRadius_le]
  have hfirst : 500 < a.position.distance b.position := by
    rw [cutoffDistance] at hfar
    norm_num at hfar
    exact hfar
  have hv : ‖v‖ ≤ 100 / 3 := by
    rw [kmh_real] at hspeed
    linarith [a.category.maxSpeed_le, b.category.maxSpeed_le]
  rw [assessUncut, outlookUncut]
  split_ifs with hparked
  · rfl
  have hout : ¬ a.position.distance b.position < a.combinedRadius b := by linarith
  simp only [if_neg hout, ofOutlook]
  have hnum : Scalar.isNaN (a.position.distance b.position) = false := rfl
  have hclosest := upTo_closest hnum (a.separation b) sampleCount
  obtain ⟨hdistance, hsample⟩ := hstraight.convexSamples.sample_scan
  rcases hp : (scan (a.position.distance b.position) (a.separation b)).sample with _ | k
  · simp only [ofApproach, hp]
  obtain ⟨hpos, hk, hat, -, -⟩ := hclosest.atSample k (hsample.trans hp)
  have hle := hclosest.le sampleCount (by decide) le_rfl rfl
  rw [hat, hstraight.separation_eq hpos hk, hstraight.separation_eq (by decide) le_rfl] at hle
  rw [← Option.not_isSome_iff_eq_none, isSome_ofApproach hp hk]
  rintro ⟨hbreach, hne⟩
  rw [← hdistance, hat, hstraight.separation_eq hpos hk] at hbreach
  exact hbreach (hroom.trans (clear_of_cutoff (hstraight.now ▸ hfirst) hv (by omega) hle))

theorem assess_eq_assessUncut : assess a b = assessUncut a b := by
  rw [assess_eq_ofOutlook]
  by_cases hfar : cutoffDistance < a.position.distance b.position
  · rw [outlook_of_cutoff hfar, assessUncut_of_cutoff ha hb hstraight hspeed hfar, ofOutlook]
  · rw [outlook_of_near hfar, assessUncut]

end Margin

/-- Light vehicles that meet at their top speeds from just beyond the cutoff. -/
theorem assess_eq_assessUncut_oncoming :
    (northbound .lightVehicle 60).track.Straight (southbound .lightVehicle 501 60).track
        !₂[501, 0] !₂[-(100 / 3), 0]
      ∧ assess (northbound .lightVehicle 60).track (southbound .lightVehicle 501 60).track
        = assessUncut (northbound .lightVehicle 60).track
          (southbound .lightVehicle 501 60).track := by
  have hdrive : (negligibleSpeed : ℝ) ≤ 60 * kmh := by
    rw [kmh_real, negligibleSpeed]
    norm_num
  have hstraight : (northbound .lightVehicle 60).track.Straight
      (southbound .lightVehicle 501 60).track !₂[501, 0] !₂[-(100 / 3), 0] := by
    refine ⟨?_, fun k _ _ => ?_⟩
    · rw [distance_headOn .lightVehicle (by norm_num), norm_east]
      norm_num
    · have hat : (!₂[501, 0] : Plane) + (sampleTime k : ℝ) • (!₂[-(100 / 3), 0] : Plane)
          = (!₂[501 - (60 + 60) * kmh * ((k : ℝ) / 2), 0] : Plane) := by
        rw [sampleTime_real, kmh_real]
        ext i
        fin_cases i
        · simp
          ring
        · simp
      rw [separation_headOn .lightVehicle 501 hdrive hdrive, hat, norm_east]
  refine ⟨hstraight, assess_eq_assessUncut rfl rfl hstraight ?_⟩
  rw [norm_east, kmh_real]
  show |(-(100 / 3) : ℝ)| ≤ (60.0 + 60.0) * (5 / 18)
  norm_num

end Assessment

end PitFleet
