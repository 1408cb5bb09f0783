import Mathlib
import PitFleet.Proofs.Number.Decoding
import PitFleet.Proofs.Scalar.Signs

/-!
# Mirrored scalars

In a mirrored scalar differences taken in either order are of one size, products of numbers of one
size by one number are of one size, and lengths of vectors depend on the sizes of their sides only.
Over doubles all of this holds to the bit, whatever is rounded or no number: a sign changes neither
the exponent nor the mantissa of what is computed (`Double.abs_sub_comm` and the others).
-/

namespace PitFleet

class MirroredScalar (α : Type) [Scalar α] : Prop where
  add_comm (x y : α) : x + y = y + x
  abs_sub_comm (x y : α) : Scalar.abs (x - y) = Scalar.abs (y - x)
  abs_mul {x y : α} (h : Scalar.abs x = Scalar.abs y) (z : α) :
    Scalar.abs (x * z) = Scalar.abs (y * z)
  hypot_abs {x x' y y' : α} : Scalar.abs x = Scalar.abs x' → Scalar.abs y = Scalar.abs y' →
    Scalar.hypot x y = Scalar.hypot x' y'

namespace Double

open Float.Model Float.Model.UnpackedFloat

variable {spec : Format}

section Packing

theorem abs_unpack_packComponents (s t : Sign) (exponent : BitVec spec.exponentBits)
    (mantissa : BitVec spec.mantissaBitsWithoutImplicit) :
    (UnpackedFloat.unpack spec (packComponents spec s exponent mantissa)).abs
      = (UnpackedFloat.unpack spec (packComponents spec t exponent mantissa)).abs := by
  simp only [UnpackedFloat.unpack, unpackMantissa_packComponents, unpackExponent_packComponents]
  split_ifs <;> rfl

theorem abs_unpack_pack (u : UnpackedFloat) :
    (Float.Model.pack u).unpack.abs = (Float.Model.pack u.abs).unpack.abs := by
  cases u with
  | notANumber => rfl
  | infinity s => exact abs_unpack_packComponents s .positive _ _
  | zero s => exact abs_unpack_packComponents s .positive _ _
  | finite s m e h =>
    change (UnpackedFloat.unpack .binary64 (UnpackedFloat.pack .binary64 (.finite s m e h))).abs
      = (UnpackedFloat.unpack .binary64
        (UnpackedFloat.pack .binary64 (.finite .positive m e h))).abs
    simp only [UnpackedFloat.pack]
    split_ifs <;> exact abs_unpack_packComponents s .positive _ _

theorem abs_unpack_positive (exponent : BitVec spec.exponentBits)
    (mantissa : BitVec spec.mantissaBitsWithoutImplicit) :
    (UnpackedFloat.unpack spec (packComponents spec .positive exponent mantissa)).abs
      = UnpackedFloat.unpack spec (packComponents spec .positive exponent mantissa) := by
  simp only [UnpackedFloat.unpack, unpackMantissa_packComponents, unpackExponent_packComponents,
    unpackSign_packComponents, Sign.ofBitVec_toBitVec]
  split_ifs <;> rfl

/-- Without their sign, bits are packed to the same exponent and mantissa. -/
theorem unpack_pack_abs {b : BitVec Format.binary64.numBits} (hb : Format.binary64.Valid b) :
    UnpackedFloat.unpack .binary64 (UnpackedFloat.pack .binary64
      (UnpackedFloat.unpack .binary64 b).abs) = (UnpackedFloat.unpack .binary64 b).abs := by
  by_cases hnan : b = packedNaN .binary64
  · rw [hnan, unpack_packedNaN]
    exact unpack_packedNaN
  · have hsize : UnpackedFloat.unpack .binary64
        (packComponents .binary64 .positive (unpackExponent b) (unpackMantissa b))
          = (UnpackedFloat.unpack .binary64 b).abs := by
      rw [← abs_unpack_positive, abs_unpack_packComponents _ (Sign.ofBitVec (unpackSign b)),
        packComponents_unpackSign_unpackExponent_unpackMantissa]
    have hvalid : Format.binary64.Valid
        (packComponents .binary64 .positive (unpackExponent b) (unpackMantissa b)) := by
      refine ⟨fun hexponent hmantissa => absurd (hb.eq_packedNaN ?_ ?_) hnan⟩
      · rwa [unpackExponent_packComponents] at hexponent
      · rwa [unpackMantissa_packComponents] at hmantissa
    rw [← hsize, pack_unpack_of_valid hvalid]

theorem unpack_abs (x : Float) : x.abs.toModel.unpack = x.toModel.unpack.abs :=
  unpack_pack_abs x.toModel.valid

theorem abs_eq_abs_iff {x y : Float} :
    x.abs = y.abs ↔ x.toModel.unpack.abs = y.toModel.unpack.abs := by
  refine ⟨fun h => ?_, fun h => congrArg (fun u => Float.ofModel (Float.Model.pack u)) h⟩
  rw [← unpack_abs, ← unpack_abs, h]

/-- What is packed from numbers of one size is of one size. -/
theorem abs_pack {u w : UnpackedFloat} (h : u.abs = w.abs) :
    (Float.ofModel (Float.Model.pack u)).abs = (Float.ofModel (Float.Model.pack w)).abs := by
  rw [abs_eq_abs_iff]
  change (Float.Model.pack u).unpack.abs = (Float.Model.pack w).unpack.abs
  rw [abs_unpack_pack, h, ← abs_unpack_pack]

end Packing

section Signs

theorem abs_roundWithAccuracy (s t : Sign) (m : ℕ) (e : ℤ) (acc : Accuracy) :
    (roundWithAccuracy spec s m e acc).abs = (roundWithAccuracy spec t m e acc).abs := by
  simp only [roundWithAccuracy]
  split_ifs <;> rfl

theorem abs_normalize_neg (m e : ℤ) (s : Sign) :
    (UnpackedFloat.normalize spec (-m) e s).abs = (UnpackedFloat.normalize spec m e s).abs := by
  rcases lt_trichotomy m 0 with h | rfl | h
  · have hneg := compare_gt_iff_gt.2 (neg_pos.2 h)
    simp only [UnpackedFloat.normalize, compare_lt_iff_lt.2 h, hneg]
    exact abs_roundWithAccuracy ..
  · rfl
  · have hneg := compare_lt_iff_lt.2 (neg_lt_zero.2 h)
    simp only [UnpackedFloat.normalize, compare_gt_iff_gt.2 h, hneg, neg_neg]
    exact abs_roundWithAccuracy ..

theorem abs_sub_unpacked (u w : UnpackedFloat) :
    (UnpackedFloat.sub spec u w).abs = (UnpackedFloat.sub spec w u).abs := by
  cases u <;> cases w <;> try rfl
  case infinity.infinity s t => cases s <;> cases t <;> rfl
  case zero.zero s t => cases s <;> cases t <;> rfl
  case finite.finite s m e h t n f h' =>
    simp only [UnpackedFloat.sub]
    rw [min_comm f e, ← abs_normalize_neg, neg_sub]

theorem add_comm_unpacked (u w : UnpackedFloat) :
    UnpackedFloat.add spec u w = UnpackedFloat.add spec w u := by
  cases u <;> cases w <;> try rfl
  case infinity.infinity s t => cases s <;> cases t <;> rfl
  case zero.zero s t => cases s <;> cases t <;> rfl
  case finite.finite s m e h t n f h' =>
    simp only [UnpackedFloat.add]
    rw [min_comm f e, add_comm]

theorem abs_mul_unpacked {u w : UnpackedFloat} (h : u.abs = w.abs) (v : UnpackedFloat) :
    (UnpackedFloat.mul spec u v).abs = (UnpackedFloat.mul spec w v).abs := by
  cases u <;> cases w <;> cases h <;> cases v <;> try rfl
  exact abs_roundWithAccuracy ..

end Signs

theorem hypot_of_abs {x x' y y' : Float} (hx : x.abs = x'.abs) (hy : y.abs = y'.abs) :
    hypot x y = hypot x' y' := by
  have hux := abs_eq_abs_iff.1 hx
  have huy := abs_eq_abs_iff.1 hy
  simp only [hypot, decode_eq, hx, hy]
  generalize x.toModel.unpack = u at *
  generalize x'.toModel.unpack = u' at *
  generalize y.toModel.unpack = w at *
  generalize y'.toModel.unpack = w' at *
  cases u <;> cases u' <;> cases hux <;> cases w <;> cases w' <;> cases huy <;> rfl

end Double

instance : MirroredScalar Float where
  add_comm _ _ :=
    congrArg (fun u => Float.ofModel (Float.Model.pack u)) (Double.add_comm_unpacked ..)
  abs_sub_comm _ _ := Double.abs_pack (Double.abs_sub_unpacked ..)
  abs_mul h _ := Double.abs_pack (Double.abs_mul_unpacked (Double.abs_eq_abs_iff.1 h) _)
  hypot_abs := Double.hypot_of_abs

instance : MirroredScalar ℝ where
  add_comm := add_comm
  abs_sub_comm := abs_sub_comm
  abs_mul {x y} h z := by
    change |x| = |y| at h
    change |x * z| = |y * z|
    rw [abs_mul, abs_mul, h]
  hypot_abs {x x' y y'} hx hy := by
    change √(x ^ 2 + y ^ 2) = √(x' ^ 2 + y' ^ 2)
    rw [(sq_eq_sq_iff_abs_eq_abs ..).2 hx, (sq_eq_sq_iff_abs_eq_abs ..).2 hy]

end PitFleet
