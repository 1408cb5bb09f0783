import Mathlib.Analysis.SpecialFunctions.Complex.Arg
import PitFleet.Proofs.Proximity.Closest
import PitFleet.Proofs.Scalar.Reals
import PitFleet.Proximity.Assessment

/-!
# Pairs on one meridian

In exact arithmetic a displacement to the north adds up (`offset_meridian`) and the distance along
a meridian is the difference (`distance_meridian`), so two vehicles that meet head-on are apart by
an affine function of time, up to its sign (`separation_headOn`).
-/

namespace PitFleet

theorem sampleTime_real (k : ℕ) : (Approach.sampleTime k : ℝ) = k / 2 := by
  have h := tenths_real (5 * k)
  rw [Scalar.tenths] at h
  rw [Approach.sampleTime, h]
  push_cast
  ring

/-- The position `m` metres north of where the equator meets the zero meridian. -/
noncomputable def meridian (m : ℝ) : Position ℝ :=
  (⟨0, 0, 0⟩ : Position ℝ).offset m 0

theorem offset_meridian (m n : ℝ) : (meridian m).offset n 0 = meridian (m + n) := by
  unfold meridian
  rw [offset_east_zero, offset_east_zero, offset_east_zero]
  simp only [Position.mk.injEq, and_true]
  ring

theorem distance_meridian (m n : ℝ) : (meridian m).distance (meridian n) = |n - m| := by
  have hpi : Real.pi ≠ 0 := Real.pi_ne_zero
  have hearth := earthRadius_ne_zero_real
  have hnorth : (n / earthRadius * (180 / Real.pi) - m / earthRadius * (180 / Real.pi))
      * (Real.pi / 180) * earthRadius = n - m := by
    field_simp
  unfold meridian
  rw [offset_east_zero, offset_east_zero]
  simp only [Position.distance, radians_real, zero_add, sub_self, zero_mul, hnorth]
  show √(0 ^ 2 + (n - m) ^ 2) = _
  rw [zero_pow two_ne_zero, zero_add, Real.sqrt_sq_eq_abs]

section

variable {v : ℝ} (hv : negligibleSpeed ≤ v * kmh)
include hv

theorem project_north (m t : ℝ) : (meridian m).project v 0 t = meridian (m + v * kmh * t) := by
  rw [Position.project, if_neg (not_lt_of_ge hv), displace_north, offset_meridian]

theorem project_south (m t : ℝ) : (meridian m).project v 180 t = meridian (m - v * kmh * t) := by
  have hcos : Scalar.cos (Scalar.radians (180 : ℝ)) = -1 := by
    rw [radians_half_turn]
    exact Real.cos_pi
  have hsin : Scalar.sin (Scalar.radians (180 : ℝ)) = 0 := by
    rw [radians_half_turn]
    exact Real.sin_pi
  rw [Position.project, if_neg (not_lt_of_ge hv), Position.displace, hcos, hsin, mul_zero,
    offset_meridian, mul_neg_one, sub_eq_add_neg]

end

noncomputable def northbound (c : Category) (v : ℝ) : Snapshot ℝ :=
  .new "north" c (meridian 0) v 0

noncomputable def southbound (c : Category) (gap v : ℝ) : Snapshot ℝ :=
  .new "south" c (meridian gap) v 180

theorem distance_headOn (c : Category) {gap : ℝ} (hgap : 0 ≤ gap) (v w : ℝ) :
    (northbound c v).track.position.distance (southbound c gap w).track.position = gap := by
  show (meridian 0).distance (meridian gap) = gap
  rw [distance_meridian, sub_zero, abs_of_nonneg hgap]

theorem separation_headOn (c : Category) (gap : ℝ) {v w : ℝ} (hv : negligibleSpeed ≤ v * kmh)
    (hw : negligibleSpeed ≤ w * kmh) (k : ℕ) :
    (northbound c v).track.separation (southbound c gap w).track k
      = |gap - (v + w) * kmh * (k / 2)| := by
  show ((meridian 0).project v 0 _).distance ((meridian gap).project w 180 _) = _
  rw [project_north hv, project_south hw, distance_meridian, sampleTime_real]
  congr 1
  ring

/-- A haul truck that goes north at 10 m/s. -/
noncomputable def hauler : Track ℝ :=
  (northbound .haulTruck 36).track

/-- One that comes the other way, `gap` metres ahead. -/
noncomputable def oncomingHauler (gap : ℝ) : Track ℝ :=
  (southbound .haulTruck gap 36).track

theorem moving_hauler : Assessment.movingSpeed < hauler.speed := by
  show (1.0 : ℝ) < 36
  norm_num

theorem combinedRadius_oncomingHauler (gap : ℝ) : hauler.combinedRadius (oncomingHauler gap) = 60 := by
  show (30.0 : ℝ) + 30.0 = 60
  norm_num

theorem distance_oncomingHauler {gap : ℝ} (hgap : 0 ≤ gap) :
    hauler.position.distance (oncomingHauler gap).position = gap :=
  distance_headOn .haulTruck hgap 36 36

theorem separation_oncomingHauler (gap : ℝ) (k : ℕ) :
    hauler.separation (oncomingHauler gap) k = |gap - 10 * k| := by
  have hspeed : (negligibleSpeed : ℝ) ≤ 36 * kmh := by
    rw [kmh_real, negligibleSpeed]
    norm_num
  rw [hauler, oncomingHauler, separation_headOn .haulTruck gap hspeed hspeed, kmh_real]
  congr 1
  ring

/-- The pair is watched at least until it is as far apart again as it was at first. -/
theorem reaches_oncomingHauler {gap : ℝ} {k : ℕ} (hk : 5 * (k : ℝ) ≤ gap) :
    Approach.Reaches gap (hauler.separation (oncomingHauler gap)) k := by
  rintro j hj ⟨-, hfar⟩
  have hcast : (j : ℝ) ≤ k := by exact_mod_cast hj.le
  have hpos : (0 : ℝ) ≤ j := j.cast_nonneg
  have hle : |gap - 10 * (j : ℝ)| ≤ gap := abs_le.2 ⟨by linarith, by linarith⟩
  rw [separation_oncomingHauler, Approach.divergence] at hfar
  norm_num at hfar
  linarith

end PitFleet
