import Mathlib
import PitFleet.Proofs.Scalar.Doubles
import PitFleet.Proofs.Scalar.Reals

/-!
# Signed scalars

In a signed scalar the operations keep to the side of zero that the signs of the operands say. So
they do over the reals, and over doubles, whatever is rounded, underflows or overflows
(`Double.OnSide`).
-/

namespace PitFleet

class SignedScalar (α : Type) [Scalar α] : Prop extends OrderedScalar α where
  isNaN_of_isFinite {x : α} : Scalar.isFinite x = true → Scalar.isNaN x = false
  mul_nonpos {x y : α} : x ≤ 0.0 → 0.0 < y → Scalar.isFinite y = true → x * y ≤ 0.0
  mul_nonneg {x y : α} : 0.0 ≤ x → 0.0 < y → Scalar.isFinite y = true → 0.0 ≤ x * y
  div_nonpos {x y : α} : x ≤ 0.0 → 0.0 < y → Scalar.isFinite y = true → x / y ≤ 0.0
  div_nonneg {x y : α} : 0.0 ≤ x → 0.0 < y → Scalar.isFinite y = true → 0.0 ≤ x / y
  sub_nonpos {x y : α} : x ≤ 0.0 → 0.0 ≤ y → x - y ≤ 0.0
  kmh_pos : (0.0 : α) < kmh
  isFinite_kmh : Scalar.isFinite (kmh : α) = true
  negligibleSpeed_pos : (0.0 : α) < negligibleSpeed

namespace Scalar

variable {α : Type} [Scalar α]

/-- Zero of either sign. -/
def IsZero (x : α) : Prop :=
  x ≤ 0.0 ∧ 0.0 ≤ x

variable [SignedScalar α] {x y : α}

theorem IsZero.mul (h : IsZero x) (hpos : 0.0 < y) (hfin : isFinite y = true) : IsZero (x * y) :=
  ⟨SignedScalar.mul_nonpos h.1 hpos hfin, SignedScalar.mul_nonneg h.2 hpos hfin⟩

theorem IsZero.div (h : IsZero x) (hpos : 0.0 < y) (hfin : isFinite y = true) : IsZero (x / y) :=
  ⟨SignedScalar.div_nonpos h.1 hpos hfin, SignedScalar.div_nonneg h.2 hpos hfin⟩

theorem isZero_max_zero (h : x ≤ 0.0) : IsZero (max x 0.0) := by
  have hzero : isNaN (0.0 : α) = false := isNaN_tenths (n := 0) (by decide)
  have hmax : max x 0.0 = 0.0 := by
    simp [max, hzero, Scalar.not_lt_of_le h]
  rw [hmax]
  exact ⟨Scalar.le_refl hzero, Scalar.le_refl hzero⟩

omit [SignedScalar α] in
theorem max_nonpos (hx : x ≤ 0.0) (hy : y ≤ 0.0) : max x y ≤ 0.0 := by
  unfold max
  split <;> assumption

theorem pos_of_isStep {dt : α} (h : IsStep dt) : 0.0 < dt :=
  Scalar.lt_of_not_le (SignedScalar.isNaN_of_isFinite h.1) (isNaN_tenths (n := 0) (by decide)) h.2

end Scalar

end PitFleet

namespace PitFleet.Double

open Float.Model Float.Model.UnpackedFloat

variable {s : Sign} {u w : UnpackedFloat} {spec : Format}

/-- Zero, or a number with the sign. -/
inductive OnSide (s : Sign) : UnpackedFloat → Prop
  | zero (t : Sign) : OnSide s (.zero t)
  | finite (m : ℕ) (e : ℤ) (h : 0 < m) : OnSide s (.finite s m e h)
  | infinity : OnSide s (.infinity s)

theorem sign_mul_positive (s : Sign) : s * .positive = s := by
  cases s <;> rfl

theorem sign_div_positive (s : Sign) : s / .positive = s := by
  cases s <;> rfl

namespace OnSide

theorem roundWithAccuracy (spec : Format) (s : Sign) (m : ℕ) (e : ℤ) (acc : Accuracy) :
    OnSide s (roundWithAccuracy spec s m e acc) := by
  unfold UnpackedFloat.roundWithAccuracy
  dsimp only
  split
  · exact .zero s
  · exact .finite ..

theorem mul (h : OnSide s u) (m : ℕ) (e : ℤ) (hm : 0 < m) :
    OnSide s (mul spec u (.finite .positive m e hm)) := by
  cases h with
  | zero t => exact .zero _
  | finite m' e' =>
    show OnSide s (UnpackedFloat.roundWithAccuracy spec (s * .positive) (m' * m) (e' + e) .exact)
    rw [sign_mul_positive]
    exact roundWithAccuracy ..
  | infinity =>
    show OnSide s (.infinity (s * .positive))
    rw [sign_mul_positive]
    exact .infinity

theorem div (h : OnSide s u) (m : ℕ) (e : ℤ) (hm : 0 < m) :
    OnSide s (div spec u (.finite .positive m e hm)) := by
  cases h with
  | zero t => exact .zero _
  | finite m' e' =>
    show OnSide s (UnpackedFloat.roundWithAccuracy spec (s / .positive) _ _ _)
    rw [sign_div_positive]
    exact roundWithAccuracy ..
  | infinity =>
    show OnSide s (.infinity (s / .positive))
    rw [sign_div_positive]
    exact .infinity

theorem normalize {m : ℤ} (hm : m ≤ 0) (spec : Format) (e : ℤ) (t : Sign) :
    OnSide .negative (normalize spec m e t) := by
  unfold UnpackedFloat.normalize
  split
  · exact roundWithAccuracy ..
  · exact .zero t
  · rename_i hgt
    have := compare_gt_iff_gt.1 hgt
    omega

theorem sub (h : OnSide .negative u) (h' : OnSide .positive w) :
    OnSide .negative (sub spec u w) := by
  have hle (a b : ℕ) : -(a : ℤ) - b ≤ 0 := by omega
  cases h with
  | zero t =>
    cases h' with
    | zero t' => cases t <;> cases t' <;> exact .zero _
    | finite m e => exact .finite ..
    | infinity => exact .infinity
  | finite m e hm =>
    cases h' with
    | zero t => exact .finite ..
    | finite m' e' =>
      exact normalize (hle _ _) ..
    | infinity => exact .infinity
  | infinity => cases h' <;> exact .infinity

end OnSide

theorem OnSide.unpack_packComponents (s : Sign)
    {exponent : BitVec spec.exponentBits} {mantissa : BitVec spec.mantissaBitsWithoutImplicit}
    (h : exponent = -1#_ → mantissa = 0#_) :
    OnSide s (UnpackedFloat.unpack spec (packComponents spec s exponent mantissa)) := by
  simp only [UnpackedFloat.unpack, unpackMantissa_packComponents, unpackExponent_packComponents,
    unpackSign_packComponents, Sign.ofBitVec_toBitVec]
  split
  · rw [if_pos (h ‹_›)]
    exact .infinity
  · split
    · split
      · exact .zero s
      · exact .finite ..
    · exact .finite ..

theorem OnSide.unpack_pack (h : OnSide s u) : OnSide s (Float.Model.pack u).unpack := by
  cases h with
  | zero t => cases t <;> exact .zero _
  | infinity => exact unpack_packComponents s fun _ => rfl
  | finite m e hm =>
    change OnSide s (UnpackedFloat.unpack .binary64
      (UnpackedFloat.pack .binary64 (.finite s m e hm)))
    rw [UnpackedFloat.pack]
    dsimp only
    split
    · exact unpack_packComponents s fun _ => rfl
    · rename_i hexp
      split
      · -- An exponent that fits is not the one of the infinities.
        refine unpack_packComponents s fun hc => ?_
        have hnat := congrArg BitVec.toNat hc
        simp only [Nat.cast_ofNat, BitVec.toNat_ofNat, Nat.reducePow, BitVec.reduceNeg, Nat.mod_succ,
          Nat.reduceLeDiff, not_le, Nat.ofNat_pos, Int.toNat_lt'] at hnat hexp
        omega
      · exact unpack_packComponents s fun hc => absurd hc (by decide)

/-- The place of the zeros. -/
def origin : ℤ ×ₗ ℤ ×ₗ ℤ :=
  toLex (0, toLex (0, 0))

theorem place_zero : place (0.0 : Float).toModel.unpack = some origin :=
  rfl

/-- Numbers stand below the zeros or above them as their signs say. -/
theorem onSide_iff : OnSide s u ↔ ∃ p, place u = some p ∧
    match s with
    | .negative => p ≤ origin
    | .positive => origin ≤ p := by
  constructor
  · intro h
    cases s <;> cases h <;> refine ⟨_, rfl, ?_⟩ <;> simp [origin, Prod.Lex.toLex_le_toLex]
  · rintro ⟨p, hp, hle⟩
    cases u with
    | notANumber => cases hp
    | zero t => exact .zero t
    | infinity t =>
      obtain rfl : t = s := by
        cases s <;> cases t <;> cases hp <;>
          simp [origin, Prod.Lex.toLex_le_toLex] at hle ⊢
      exact .infinity
    | finite t m e h =>
      obtain rfl : t = s := by
        cases s <;> cases t <;> cases hp <;>
          simp [origin, Prod.Lex.toLex_le_toLex] at hle ⊢
      exact .finite m e h

theorem nonpos_iff {x : Float} : x ≤ 0.0 ↔ OnSide .negative x.toModel.unpack := by
  rw [le_iff_place, place_zero, onSide_iff]
  simp

theorem nonneg_iff {x : Float} : 0.0 ≤ x ↔ OnSide .positive x.toModel.unpack := by
  rw [le_iff_place, place_zero, onSide_iff]
  simp

theorem exists_finite_positive {x : Float} (hpos : 0.0 < x) (hfin : x.isFinite = true) :
    ∃ m e h, x.toModel.unpack = .finite .positive m e h := by
  have hside := nonneg_iff.1 (Scalar.le_of_lt hpos)
  have hzero : ¬ OnSide .negative x.toModel.unpack := fun hc =>
    Scalar.not_le_of_lt hpos (nonpos_iff.2 hc)
  change x.toModel.unpack.isFinite = true at hfin
  generalize x.toModel.unpack = u at *
  cases hside with
  | zero t => exact absurd (.zero t) hzero
  | finite m e h => exact ⟨m, e, h, rfl⟩
  | infinity => cases hfin

section

variable {x y : Float} (h : OnSide s x.toModel.unpack) (hpos : 0.0 < y) (hfin : y.isFinite = true)
include h hpos hfin

theorem onSide_mul : OnSide s (x * y).toModel.unpack := by
  obtain ⟨m, e, hm, hy⟩ := exists_finite_positive hpos hfin
  change OnSide s (Float.Model.pack (.mul .binary64 x.toModel.unpack y.toModel.unpack)).unpack
  rw [hy]
  exact (h.mul m e hm).unpack_pack

theorem onSide_div : OnSide s (x / y).toModel.unpack := by
  obtain ⟨m, e, hm, hy⟩ := exists_finite_positive hpos hfin
  change OnSide s (Float.Model.pack (.div .binary64 x.toModel.unpack y.toModel.unpack)).unpack
  rw [hy]
  exact (h.div m e hm).unpack_pack

end

end PitFleet.Double

namespace PitFleet

open Double in
instance : SignedScalar Float where
  isNaN_of_isFinite {x} h := by
    change x.toModel.unpack.isFinite = true at h
    change x.toModel.unpack.isNaN = false
    generalize x.toModel.unpack = u at *
    cases u <;> first | rfl | cases h
  mul_nonpos hx hpos hfin := nonpos_iff.2 (onSide_mul (nonpos_iff.1 hx) hpos hfin)
  mul_nonneg hx hpos hfin := nonneg_iff.2 (onSide_mul (nonneg_iff.1 hx) hpos hfin)
  div_nonpos hx hpos hfin := nonpos_iff.2 (onSide_div (nonpos_iff.1 hx) hpos hfin)
  div_nonneg hx hpos hfin := nonneg_iff.2 (onSide_div (nonneg_iff.1 hx) hpos hfin)
  sub_nonpos hx hy := nonpos_iff.2 ((nonpos_iff.1 hx).sub (nonneg_iff.1 hy)).unpack_pack
  kmh_pos := by decide +kernel
  isFinite_kmh := by decide +kernel
  negligibleSpeed_pos := by decide +kernel

theorem zero_real : (0.0 : ℝ) = 0 := by
  norm_num

instance : SignedScalar ℝ where
  isNaN_of_isFinite _ := rfl
  mul_nonpos {x y} hx hpos _ := by
    rw [zero_real] at *
    exact mul_nonpos_of_nonpos_of_nonneg hx hpos.le
  mul_nonneg {x y} hx hpos _ := by
    rw [zero_real] at *
    exact mul_nonneg hx hpos.le
  div_nonpos {x y} hx hpos _ := by
    rw [zero_real] at *
    exact div_nonpos_of_nonpos_of_nonneg hx hpos.le
  div_nonneg {x y} hx hpos _ := by
    rw [zero_real] at *
    exact div_nonneg hx hpos.le
  sub_nonpos {x y} hx hy := by
    rw [zero_real] at *
    linarith
  kmh_pos := by
    rw [kmh_real]
    norm_num
  isFinite_kmh := rfl
  negligibleSpeed_pos := by
    unfold negligibleSpeed
    norm_num

end PitFleet
