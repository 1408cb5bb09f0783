import Mathlib
import PitFleet.Proofs.Scalar.Reals
import PitFleet.Proximity.Encounter

/-!
# Headings on the circle

In exact arithmetic a heading is made normal by taking its whole turns away (`normalize_real`). The
angle between two headings is the distance of their points on the circle of 360 degrees
(`difference_eq_dist`), and that is the least by which one can be turned into the other
(`isLeast_dist`). So it does not matter how often either heading goes round, and an encounter, which
is told by that angle alone, is the same from wherever headings are counted
(`difference_circular`).
-/

namespace PitFleet

namespace Heading

theorem turn_real : (360.0 : ℝ) = 360 := by
  norm_num

variable (x y : ℝ)

theorem turnRemainder_real : turnRemainder x = x - 360 * ⌊x / 360⌋ := by
  have hzero : (0.0 : ℝ) = 0 := by norm_num
  have hrem : Scalar.rem x 360
      = if 0 ≤ x / 360 then x - 360 * ⌊x / 360⌋ else x - 360 * ⌈x / 360⌉ := rfl
  have habs : Scalar.abs (360 : ℝ) = 360 := abs_of_nonneg (by norm_num)
  simp only [turnRemainder, turn_real, hzero, habs, hrem]
  by_cases hsign : 0 ≤ x / 360
  · have hfloor := Int.floor_le (x / 360)
    rw [if_pos hsign, if_neg (by linarith)]
  · rw [if_neg hsign]
    by_cases hwhole : x / 360 ∈ Set.range ((↑·) : ℤ → ℝ)
    · obtain ⟨k, hk⟩ := hwhole
      have hx : x = 360 * k := by linarith
      rw [← hk, Int.ceil_intCast, Int.floor_intCast, if_neg (by linarith)]
    · have hceil := (Int.ceil_eq_floor_add_one_iff_notMem (x / 360)).2 hwhole
      have hlt := Int.lt_floor_add_one (x / 360)
      rw [hceil, Int.cast_add, Int.cast_one, if_pos (by linarith)]
      ring

theorem turnRemainder_real_mem : 0 ≤ turnRemainder x ∧ turnRemainder x < 360 := by
  have hfloor := Int.floor_le (x / 360)
  have hlt := Int.lt_floor_add_one (x / 360)
  rw [turnRemainder_real]
  constructor <;> linarith

/-- No remainder is rounded up to a whole turn. -/
theorem normalize_real : normalize x = x - 360 * ⌊x / 360⌋ := by
  simp only [normalize, turn_real]
  rw [if_neg (not_le.2 (turnRemainder_real_mem x).2), turnRemainder_real]

theorem normalize_real_mem : 0 ≤ normalize x ∧ normalize x < 360 := by
  rw [normalize_real, ← turnRemainder_real]
  exact turnRemainder_real_mem x

/-! ### The circle -/

theorem coe_add_turns (k : ℤ) : ((x + 360 * k : ℝ) : AddCircle (360 : ℝ)) = x := by
  rw [AddCircle.coe_add, add_eq_left, AddCircle.coe_eq_zero_iff]
  exact ⟨k, by rw [zsmul_eq_mul, mul_comm]⟩

theorem coe_normalize : ((normalize x : ℝ) : AddCircle (360 : ℝ)) = x := by
  rw [normalize_real, sub_eq_add_neg, ← mul_neg, ← Int.cast_neg, coe_add_turns]

/-- The way between two headings is the shorter of the two ways round. -/
theorem difference_eq_dist : difference x y = dist (x : AddCircle (360 : ℝ)) y := by
  have hhalf : (180.0 : ℝ) = 180 := by norm_num
  have hnorm {z : ℝ} (hz : |z| ≤ 180) : ‖(z : AddCircle (360 : ℝ))‖ = |z| := by
    rw [AddCircle.norm_coe_eq_abs_iff _ (by norm_num)]
    norm_num
    exact hz
  obtain ⟨hx0, hx⟩ := normalize_real_mem x
  obtain ⟨hy0, hy⟩ := normalize_real_mem y
  rw [dist_eq_norm, ← coe_normalize x, ← coe_normalize y, ← AddCircle.coe_sub]
  show (if 180.0 < |normalize x - normalize y| then 360.0 - |normalize x - normalize y|
    else |normalize x - normalize y|) = _
  rw [hhalf, turn_real]
  generalize normalize x = a at *
  generalize normalize y = b at *
  split
  case isFalse hnear => exact (hnorm (not_lt.1 hnear)).symm
  case isTrue hfar =>
    -- More than half a turn apart, they are reached across north.
    rcases le_total b a with hle | hle
    · rw [abs_of_nonneg (by linarith)] at hfar ⊢
      have hback : ((a - b : ℝ) : AddCircle (360 : ℝ)) = (a - b - 360 : ℝ) := by
        rw [← AddCircle.coe_add_period _ (a - b - 360), sub_add_cancel]
      rw [hback, hnorm (abs_le.2 ⟨by linarith, by linarith⟩), abs_of_neg (by linarith)]
      ring
    · rw [abs_of_nonpos (by linarith)] at hfar ⊢
      rw [← AddCircle.coe_add_period,
        hnorm (abs_le.2 ⟨by linarith, by linarith⟩), abs_of_pos (by linarith)]
      ring

theorem isLeast_dist : IsLeast (Set.range fun k : ℤ => |x - y + 360 * k|)
    (dist (x : AddCircle (360 : ℝ)) y) := by
  rw [dist_eq_norm, ← AddCircle.coe_sub]
  constructor
  · refine ⟨-round ((360 : ℝ)⁻¹ * (x - y)), ?_⟩
    dsimp only
    rw [AddCircle.norm_eq]
    push_cast
    ring_nf
  · rintro _ ⟨k, rfl⟩
    have hround := round_le ((360 : ℝ)⁻¹ * (x - y)) (-k)
    have hscale : |x - y + 360 * k| = 360 * |(360 : ℝ)⁻¹ * (x - y) - (-k : ℤ)| := by
      rw [← abs_of_pos (show (0 : ℝ) < 360 by norm_num), ← abs_mul]
      push_cast
      ring_nf
    rw [AddCircle.norm_eq' _ (by norm_num)]
    dsimp only
    rw [hscale]
    linarith

theorem difference_le_half : difference x y ≤ 180 := by
  have hhalf := AddCircle.norm_le_half_period (360 : ℝ) (x := (x - y : ℝ)) (by norm_num)
  rw [difference_eq_dist, dist_eq_norm, ← AddCircle.coe_sub]
  norm_num at hhalf
  exact hhalf

theorem difference_eq_zero_iff : difference x y = 0 ↔ ∃ k : ℤ, x = y + 360 * k := by
  rw [difference_eq_dist, dist_eq_zero, ← sub_eq_zero, ← AddCircle.coe_sub,
    AddCircle.coe_eq_zero_iff]
  refine exists_congr fun k => ?_
  rw [zsmul_eq_mul, mul_comm, eq_sub_iff_add_eq', eq_comm]

end Heading

theorem Encounter.ofHeadings_congr {α : Type} [Scalar α] {x y x' y' : α}
    (h : Heading.difference x y = Heading.difference x' y') :
    Encounter.ofHeadings x y = Encounter.ofHeadings x' y' := by
  rw [ofHeadings, ofHeadings, h]

namespace Heading

/-- Headings are compared on the circle. -/
theorem difference_circular (x y : ℝ) :
    IsLeast (Set.range fun k : ℤ => |x - y + 360 * k|) (difference x y)
      ∧ (0 ≤ difference x y ∧ difference x y ≤ 180)
      ∧ difference x y = difference y x
      ∧ (difference x y = 0 ↔ ∃ k : ℤ, x = y + 360 * k)
      ∧ (∀ z, difference x z ≤ difference x y + difference y z)
      ∧ (∀ m n : ℤ, difference (x + 360 * m) (y + 360 * n) = difference x y)
      ∧ (∀ c, difference (x + c) (y + c) = difference x y)
      ∧ (∀ x' y' : ℝ, difference x' y' = difference x y →
        Encounter.ofHeadings x' y' = Encounter.ofHeadings x y)
      ∧ Encounter.ofHeadings x y = Encounter.ofHeadings y x
      ∧ (∀ m n : ℤ, Encounter.ofHeadings (x + 360 * m) (y + 360 * n) = Encounter.ofHeadings x y)
      ∧ ∀ c, Encounter.ofHeadings (x + c) (y + c) = Encounter.ofHeadings x y := by
  have hcomm : difference x y = difference y x := by
    rw [difference_eq_dist, difference_eq_dist, dist_comm]
  have hturns (m n : ℤ) : difference (x + 360 * m) (y + 360 * n) = difference x y := by
    rw [difference_eq_dist, difference_eq_dist, coe_add_turns, coe_add_turns]
  have hshift (c : ℝ) : difference (x + c) (y + c) = difference x y := by
    rw [difference_eq_dist, difference_eq_dist, AddCircle.coe_add, AddCircle.coe_add,
      dist_add_right]
  refine ⟨?_, ⟨?_, difference_le_half x y⟩, hcomm, difference_eq_zero_iff x y, fun z => ?_, hturns,
    hshift, fun _ _ => Encounter.ofHeadings_congr, Encounter.ofHeadings_congr hcomm,
    fun m n => Encounter.ofHeadings_congr (hturns m n),
    fun c => Encounter.ofHeadings_congr (hshift c)⟩
  · rw [difference_eq_dist]
    exact isLeast_dist x y
  · rw [difference_eq_dist]
    exact dist_nonneg
  · rw [difference_eq_dist, difference_eq_dist, difference_eq_dist]
    exact dist_triangle _ _ _

end Heading

end PitFleet
