import Mathlib.Analysis.SpecialFunctions.Complex.Arg
import Mathlib.Data.Rat.Cast.OfScientific
import Mathlib.Tactic
import PitFleet.Position
import PitFleet.Proofs.Scalar.Order

/-!
# The reals as scalars

Exact arithmetic: the model over `ℝ` computes without rounding and knows nothing that is no number.
A displacement to the north moves the latitude only (`displace_north`, `offset_east_zero`).
-/

namespace PitFleet

noncomputable instance : Scalar ℝ where
  decLt := inferInstance
  decLe := inferInstance
  isNaN _ := false
  isFinite _ := true
  abs x := |x|
  sin := Real.sin
  cos := Real.cos
  atan2 y x := Complex.arg ⟨x, y⟩
  hypot x y := √(x ^ 2 + y ^ 2)
  rem x y := if 0 ≤ x / y then x - y * ⌊x / y⌋ else x - y * ⌈x / y⌉
  pi := Real.pi

theorem tenths_real (n : ℕ) : (Scalar.tenths n : ℝ) = n / 10 := by
  rw [Scalar.tenths, NNRatCast.ofScientific_eq_ite, if_pos rfl]
  simp [NNRat.divNat_eq_div]

instance : OrderedScalar ℝ where
  isNaN_of_le _ := ⟨rfl, rfl⟩
  le_total _ _ := le_total _ _
  le_trans := le_trans
  lt_iff := lt_iff_le_not_ge
  tenths_lt {m n} _ _ h := by
    rw [tenths_real, tenths_real]
    have : (m : ℝ) < n := by exact_mod_cast h
    linarith

theorem kmh_real : (kmh : ℝ) = 5 / 18 := by
  unfold kmh
  norm_num

theorem kmh_ne_zero_real : (kmh : ℝ) ≠ 0 := by
  rw [kmh_real]
  norm_num

theorem earthRadius_real : (earthRadius : ℝ) = 6371000 := by
  unfold earthRadius
  norm_num

theorem earthRadius_ne_zero_real : (earthRadius : ℝ) ≠ 0 := by
  rw [earthRadius_real]
  norm_num

theorem isStep_real {dt : ℝ} : Scalar.IsStep dt ↔ 0 < dt := by
  unfold Scalar.IsStep
  norm_num [Scalar.isFinite]

theorem radians_real (x : ℝ) : Scalar.radians x = x * (Real.pi / 180) := by
  show x * (Real.pi / 180.0) = _
  norm_num

theorem radians_half_turn : Scalar.radians (180 : ℝ) = Real.pi := by
  rw [radians_real]
  ring

theorem degrees_real (x : ℝ) : Scalar.degrees x = x * (180 / Real.pi) := by
  show x * (180.0 / Real.pi) = _
  norm_num

theorem radians_degrees_real (x : ℝ) : Scalar.radians (Scalar.degrees x) = x := by
  have hpi := Real.pi_ne_zero
  rw [radians_real, degrees_real]
  field_simp

theorem degrees_radians_real (x : ℝ) : Scalar.degrees (Scalar.radians x) = x := by
  have hpi := Real.pi_ne_zero
  rw [radians_real, degrees_real]
  field_simp

theorem min_real (x y : ℝ) : Scalar.min x y = min x y := by
  rcases lt_or_ge x y with h | h
  · simp [Scalar.min, h, h.le]
  · simp [Scalar.min, Scalar.isNaN, h.not_gt, h]

theorem max_real (x y : ℝ) : Scalar.max x y = max x y := by
  rcases lt_or_ge y x with h | h
  · simp [Scalar.max, h, h.le]
  · simp [Scalar.max, Scalar.isNaN, h.not_gt, h]

theorem offset_east_zero (p : Position ℝ) (m : ℝ) :
    p.offset m 0 = { p with latitude := p.latitude + m / earthRadius * (180 / Real.pi) } := by
  simp only [Position.offset, degrees_real, zero_div, zero_mul, add_zero]

theorem displace_north (p : Position ℝ) (m : ℝ) : p.displace m 0 = p.offset m 0 := by
  have hcos : Scalar.cos (Scalar.radians (0 : ℝ)) = 1 := by
    rw [radians_real, zero_mul]
    exact Real.cos_zero
  have hsin : Scalar.sin (Scalar.radians (0 : ℝ)) = 0 := by
    rw [radians_real, zero_mul]
    exact Real.sin_zero
  rw [Position.displace, hcos, hsin, mul_one, mul_zero]

end PitFleet
