import Mathlib
import PitFleet.Proofs.Number.Decoding

/-!
# The shortest digits are not zero

A double that is not zero lies above zero with the whole interval of the numbers that round to it,
so that a whole number of units in that interval is not zero. Where no unit is small enough, the
last one tried is still less than twice the double (`Interval.scale_lt`), so that rounding does not
give zero either (`digits_ne_zero`).
-/

namespace PitFleet.Shortest

section Rounding

variable (tie : Tie) {n d : ℕ}

theorem Tie.div_le_roundDiv : n / d ≤ tie.roundDiv n d := by
  cases tie with
  | even =>
    simp only [Tie.roundDiv, Double.roundDiv]
    split_ifs <;> omega
  | up =>
    simp only [Tie.roundDiv]
    rw [← Nat.mul_div_mul_left n d (by decide : 0 < 2)]
    exact Nat.div_le_div_right (Nat.le_add_right _ _)

theorem Tie.roundDiv_ne_zero (hd : 0 < d) (h : d < 2 * n) : tie.roundDiv n d ≠ 0 := by
  cases tie with
  | even =>
    simp only [Tie.roundDiv, Double.roundDiv]
    have hsum := Nat.div_add_mod n d
    rcases Nat.eq_zero_or_pos (n / d) with hquot | hquot
    · rw [hquot, mul_zero, zero_add] at hsum
      rw [if_neg (by omega), if_pos (by omega)]
      omega
    · split_ifs <;> omega
  | up =>
    simp only [Tie.roundDiv]
    exact (Nat.div_pos (by omega) (by omega)).ne'

end Rounding

section Search

variable {tie : Tie} {i : Interval} {n : ℕ} {k : ℤ}

theorem Interval.ne_zero_of_holds (hlow : 0 < i.low) (h : i.holds n = true) : n ≠ 0 := by
  rintro rfl
  unfold holds at h
  simp only [zero_mul, Bool.decide_and] at h
  split_ifs at h
  · simp only [Bool.and_eq_true, decide_eq_true_eq] at h
    omega
  · simp only [Bool.and_eq_true, decide_eq_true_eq] at h
    omega

theorem Interval.nearest?_ne_zero (hlow : 0 < i.low) (h : i.nearest? tie = some n) : n ≠ 0 := by
  simp only [nearest?] at h
  split_ifs at h with hboth hbelow <;> obtain rfl := Option.some.inj h
  · rw [Bool.and_eq_true] at hboth
    have hquot := ne_zero_of_holds hlow hboth.1
    exact (hquot.bot_lt.trans_le tie.div_le_roundDiv).ne'
  · exact ne_zero_of_holds hlow hbelow
  · exact Nat.succ_ne_zero _

theorem Interval.low_inUnits (hlow : 0 < i.low) (k : ℤ) : 0 < (i.inUnits k).low :=
  Nat.mul_pos hlow (Nat.pow_pos (by decide))

/-- The search does not come to zero if rounding to the last unit does not. -/
theorem search_ne_zero (hlow : 0 < i.low) : ∀ {n : ℕ} {k : ℤ},
    0 < (i.inUnits (k - n)).scale → (i.inUnits (k - n)).scale < 2 * (i.inUnits (k - n)).value →
      (search tie i n k).digits ≠ 0
  | 0, k, hpos, hlt => by
    rw [Nat.cast_zero, sub_zero] at hpos hlt
    exact tie.roundDiv_ne_zero hpos hlt
  | n + 1, k, hpos, hlt => by
    rw [search]
    split
    · rename_i d hd
      exact Interval.nearest?_ne_zero (Interval.low_inUnits hlow k) hd
    · have hunit : k - (n + 1 : ℕ) = k - 1 - n := by omega
      rw [hunit] at hpos hlt
      exact search_ne_zero hlow hpos hlt

theorem trim_ne_zero : ∀ (n : ℕ) {d : Decimal}, d.digits ≠ 0 → (trim n d).digits ≠ 0
  | 0, _, h => h
  | n + 1, d, h => by
    rw [trim]
    split_ifs with hzero
    · refine trim_ne_zero n ?_
      show d.digits / 10 ≠ 0
      omega
    · exact h

end Search

section Units

/-- A power of ten whose exponent is cut short by far lies below the power of two. -/
theorem ten_zpow_lt_two_zpow {n : ℤ} (hlow : -1100 ≤ n) (hhigh : n ≤ 1100) :
    (10 : ℚ) ^ (n * 30103 / 100000 - 19) < 2 ^ n := by
  have hpart {q : ℤ} (hq : n * 30103 / 100000 - 19 < q) :
      (10 : ℚ) ^ (n * 30103 / 100000 - 19) < 10 ^ q := zpow_lt_zpow_right₀ (by norm_num) hq
  rcases le_or_gt 0 n with hn | hn
  · -- Ten binary places make more than three decimal ones.
    calc (10 : ℚ) ^ (n * 30103 / 100000 - 19)
        < 10 ^ (3 * (n / 10)) := hpart (by omega)
      _ = 1000 ^ (n / 10) := by rw [zpow_mul]; norm_num
      _ ≤ 1024 ^ (n / 10) := zpow_le_zpow_left₀ (by omega) (by norm_num) (by norm_num)
      _ = 2 ^ (10 * (n / 10)) := by rw [zpow_mul]; norm_num
      _ ≤ 2 ^ n := zpow_le_zpow_right₀ (by norm_num) (by omega)
  · -- Thirteen of them make less than four.
    have hpow : (8192 : ℚ) ^ (-(n / 13)) ≤ 10000 ^ (-(n / 13)) :=
      zpow_le_zpow_left₀ (by omega) (by norm_num) (by norm_num)
    rw [zpow_neg, zpow_neg, inv_le_inv₀ (by positivity) (by positivity)] at hpow
    calc (10 : ℚ) ^ (n * 30103 / 100000 - 19)
        < 10 ^ (4 * (n / 13)) := hpart (by omega)
      _ = 10000 ^ (n / 13) := by rw [zpow_mul]; norm_num
      _ ≤ 8192 ^ (n / 13) := hpow
      _ = 2 ^ (13 * (n / 13)) := by rw [zpow_mul]; norm_num
      _ ≤ 2 ^ n := zpow_le_zpow_right₀ (by norm_num) (by omega)

theorem pow_toNat_eq {b : ℚ} (hb : b ≠ 0) (k : ℤ) :
    b ^ k.toNat = b ^ (-k).toNat * b ^ k := by
  rw [← zpow_natCast, ← zpow_natCast, ← zpow_add₀ hb]
  congr 1
  omega

/-- The last unit that the search tries is less than twice the number. -/
theorem Interval.scale_lt {m : ℕ} {e : ℤ} (hm : m ≠ 0) (hlow : -1100 ≤ m.log2 + 1 + e)
    (hhigh : m.log2 + 1 + e ≤ 1100) :
    ((Interval.of m e).inUnits (leadingBound m e - 20)).scale
      < 2 * ((Interval.of m e).inUnits (leadingBound m e - 20)).value := by
  have hunit : leadingBound m e - 20 = (m.log2 + 1 + e) * 30103 / 100000 - 19 := by
    simp only [leadingBound]
    omega
  have hten := ten_zpow_lt_two_zpow hlow hhigh
  rw [← hunit] at hten
  generalize leadingBound m e - 20 = k at hten
  have hmantissa : (2 : ℚ) ^ (m.log2 + 1 + e) ≤ 2 * m * 2 ^ e := by
    have hlog : ((2 ^ m.log2 : ℕ) : ℚ) ≤ m := Nat.cast_le.2 (Nat.log2_self_le hm)
    push_cast at hlog
    rw [zpow_add₀ (by norm_num), zpow_add₀ (by norm_num), zpow_natCast, zpow_one]
    refine mul_le_mul_of_nonneg_right ?_ (by positivity)
    linarith
  have hsize : (2 : ℚ) ^ (2 - e) * 10 ^ k < 8 * m := by
    have hpos : (0 : ℚ) < 2 ^ (2 - e) := by positivity
    calc (2 : ℚ) ^ (2 - e) * 10 ^ k
        < 2 ^ (2 - e) * (2 * m * 2 ^ e) := by
          gcongr
          exact hten.trans_le hmantissa
      _ = 2 ^ (2 - e + e) * (2 * m) := by
          rw [zpow_add₀ (by norm_num)]
          ring
      _ = 8 * m := by
          rw [sub_add_cancel]
          norm_num
          ring
  have hscale : ((((Interval.of m e).inUnits k).scale : ℕ) : ℚ)
      = (2 ^ (-(2 - e)).toNat * 10 ^ (-k).toNat) * (2 ^ (2 - e) * 10 ^ k) := by
    simp only [inUnits, Interval.of, Nat.one_shiftLeft, Nat.pow_eq, Nat.cast_mul, Nat.cast_pow,
      Nat.cast_ofNat]
    rw [pow_toNat_eq (by norm_num) (2 - e), pow_toNat_eq (by norm_num) k]
    ring
  have hvalue : ((2 * ((Interval.of m e).inUnits k).value : ℕ) : ℚ)
      = (2 ^ (-(2 - e)).toNat * 10 ^ (-k).toNat) * (8 * m) := by
    simp only [inUnits, Interval.of, Nat.shiftLeft_eq, Nat.pow_eq, Nat.cast_mul, Nat.cast_pow,
      Nat.cast_ofNat, neg_sub]
    ring
  rw [← Nat.cast_lt (α := ℚ), hscale, hvalue]
  gcongr

end Units

theorem Interval.low_of {m : ℕ} (hm : m ≠ 0) (e : ℤ) : 0 < (Interval.of m e).low := by
  simp only [Interval.of, Nat.shiftLeft_eq]
  refine Nat.mul_pos ?_ (Nat.two_pow_pos _)
  split <;> omega

theorem digits_ne_zero (tie : Tie) {m : ℕ} {e : ℤ} (hm : m ≠ 0) (hlow : -1100 ≤ m.log2 + 1 + e)
    (hhigh : m.log2 + 1 + e ≤ 1100) : (digits tie m e).digits ≠ 0 := by
  refine trim_ne_zero 20 (search_ne_zero (Interval.low_of hm e) ?_ (Interval.scale_lt hm hlow hhigh))
  simp only [Interval.inUnits, Interval.of, Nat.one_shiftLeft, Nat.pow_eq]
  positivity

end PitFleet.Shortest
