import Mathlib
import PitFleet.Number.Style

/-!
# What a double stands for

Taking a double apart by its bits gives what it stands for as a number (`decode_eq`). So the doubles
that are finite are those with a mantissa and an exponent (`isFinite_iff`), and all others are
written as `null` in JSON.
-/

namespace PitFleet.Double

open Float.Model Float.Model.UnpackedFloat

def Value.ofUnpacked : UnpackedFloat → Value
  | .notANumber => .nan
  | .infinity s => .infinite (s == .negative)
  | .zero s => .finite (s == .negative) 0 leastExponent
  | .finite s m e _ => .finite (s == .negative) m e

section Bits

variable (b : BitVec Format.binary64.numBits)

theorem toNat_unpackMantissa : (unpackMantissa b).toNat = b.toNat % fieldSize := by
  simp [unpackMantissa, fieldSize]

theorem toNat_unpackExponent :
    (unpackExponent b).toNat = b.toNat / fieldSize % (lastPlace + 1) := by
  simp [unpackExponent, fieldSize, lastPlace, Nat.shiftRight_eq_div_pow]

theorem ofBitVec_unpackSign :
    (Sign.ofBitVec (unpackSign b) == .negative) = decide (signSize ≤ b.toNat) := by
  have hb : b.toNat < 2 * signSize := b.isLt
  have hsign : (unpackSign b).toNat = b.toNat / signSize := by
    simp only [unpackSign, BitVec.toNat_cast, BitVec.extractLsb_toNat, Nat.shiftRight_eq_div_pow]
    refine (Nat.mod_eq_of_lt ?_)
    exact Nat.div_lt_of_lt_mul hb
  unfold Sign.ofBitVec
  by_cases h : signSize ≤ b.toNat
  · have hne : unpackSign b ≠ 0#1 := fun hc => by
      rw [hc] at hsign
      have := Nat.div_pos h (by decide)
      simp at hsign
      omega
    rw [if_neg hne, decide_eq_true h]
    rfl
  · have heq : unpackSign b = 0#1 := by
      rw [← BitVec.toNat_inj, hsign, Nat.div_eq_of_lt (Nat.lt_of_not_le h)]
      rfl
    rw [if_pos heq, decide_eq_false h]
    rfl

end Bits

/-- The value of a double by its bits as a whole number. -/
def Value.ofBits (bits : ℕ) : Value :=
  let negative := signSize ≤ bits
  let place := bits / fieldSize % (lastPlace + 1)
  let field := bits % fieldSize
  if place = lastPlace then
    if field = 0 then .infinite negative else .nan
  else if place = 0 then
    .finite negative field leastExponent
  else
    .finite negative (fieldSize + field) (leastExponent + (place - 1 : ℕ))

theorem Value.ofBits_toNat (b : BitVec Format.binary64.numBits) :
    Value.ofBits b.toNat = .ofUnpacked (.unpack .binary64 b) := by
  unfold UnpackedFloat.unpack
  simp only [Value.ofBits]
  have hexponent := toNat_unpackExponent b
  have hmantissa := toNat_unpackMantissa b
  have hlast : @unpackExponent .binary64 b = -1#11
      ↔ b.toNat / fieldSize % (lastPlace + 1) = lastPlace := by
    rw [← BitVec.toNat_inj, hexponent]
    rfl
  have hfirst : @unpackExponent .binary64 b = 0#11
      ↔ b.toNat / fieldSize % (lastPlace + 1) = 0 := by
    rw [← BitVec.toNat_inj, hexponent]
    rfl
  have hfield : @unpackMantissa .binary64 b = 0#52 ↔ b.toNat % fieldSize = 0 := by
    rw [← BitVec.toNat_inj, hmantissa]
    rfl
  rw [← ofBitVec_unpackSign]
  by_cases h1 : b.toNat / fieldSize % (lastPlace + 1) = lastPlace
  · rw [if_pos h1, if_pos (hlast.2 h1)]
    by_cases h2 : b.toNat % fieldSize = 0
    · rw [if_pos h2, if_pos (hfield.2 h2)]
      rfl
    · rw [if_neg h2, if_neg (mt hfield.1 h2)]
      rfl
  rw [if_neg h1, if_neg (mt hlast.1 h1)]
  by_cases h2 : b.toNat / fieldSize % (lastPlace + 1) = 0
  · rw [if_pos h2, if_pos (hfirst.2 h2)]
    by_cases h3 : b.toNat % fieldSize = 0
    · rw [h3, dif_pos (hfield.2 h3)]
      rfl
    · rw [dif_neg (mt hfield.1 h3)]
      simp only [Value.ofUnpacked, hexponent, hmantissa, h2]
      rfl
  · rw [if_neg h2, if_neg (mt hfirst.1 h2)]
    have himplicit : (1#1 ++ @unpackMantissa .binary64 b).toNat
        = fieldSize + b.toNat % fieldSize := by
      rw [BitVec.toNat_append, hmantissa]
      exact (Nat.shiftLeft_add_eq_or_of_lt (Nat.mod_lt _ (by decide)) 1).symm
    simp only [Value.ofUnpacked, hexponent, himplicit]
    congr 1
    have hbias : (Format.binary64.exponentBias : ℤ) + (52 : ℕ) = 1 - leastExponent := rfl
    rw [hbias]
    omega

theorem decode_eq (x : Float) : decode x = .ofUnpacked x.toModel.unpack :=
  Value.ofBits_toNat x.toModel.toBits.toBitVec

theorem isFinite_iff {x : Float} :
    x.isFinite = true ↔ ∃ negative m e, decode x = .finite negative m e := by
  change x.toModel.unpack.isFinite = true ↔ _
  rw [decode_eq]
  cases x.toModel.unpack <;> simp [UnpackedFloat.isFinite, Value.ofUnpacked]

theorem decode_bounds {x : Float} {negative : Bool} {m : ℕ} {e : ℤ}
    (h : decode x = .finite negative m e) :
    m < 2 * fieldSize ∧ leastExponent ≤ e ∧ e ≤ leastExponent + 2045 := by
  have hfield : x.toBits.toNat % fieldSize < fieldSize := Nat.mod_lt _ (by decide)
  have hplace : x.toBits.toNat / fieldSize % (lastPlace + 1) < lastPlace + 1 :=
    Nat.mod_lt _ (Nat.succ_pos _)
  have hlast : lastPlace = 2047 := rfl
  simp only [decode] at h
  split_ifs at h with hinfinite hnan hleast
  · obtain ⟨-, rfl, rfl⟩ := Value.finite.inj h
    omega
  · obtain ⟨-, rfl, rfl⟩ := Value.finite.inj h
    omega

end PitFleet.Double

namespace PitFleet.NumberStyle

theorem write_json_of_not_isFinite {x : Float} (h : x.isFinite = false) :
    json.write x = "null" := by
  have hdecode : ∀ negative m e, Double.decode x ≠ .finite negative m e := fun negative m e hc =>
    absurd (Double.isFinite_iff.2 ⟨negative, m, e, hc⟩) (by simp [h])
  unfold write
  rcases hx : Double.decode x with _ | (_ | _) | ⟨negative, m, e⟩
  · rfl
  · rfl
  · rfl
  · exact absurd hx (hdecode negative m e)

end PitFleet.NumberStyle
