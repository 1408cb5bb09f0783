import Mathlib
import PitFleet.Heading
import PitFleet.Proofs.Number.Decoding
import PitFleet.Proofs.Scalar.Signs

/-!
# Turns in doubles

The remainder of a finite double by a full turn is no longer than the turn, so that a turn added to
a remainder below zero leaves nothing below zero. Hence normal headings are those of finite angles
(`proper_normalize_iff`); what is no number and what is infinite has none.
-/

namespace PitFleet.Double

open Float.Model Float.Model.UnpackedFloat

theorem unpack_ofBits (u : UInt64) :
    (Float.ofBits u).toModel.unpack = .unpack .binary64 u.toBitVec := by
  change UnpackedFloat.unpack .binary64
    (UnpackedFloat.pack .binary64 (.unpack .binary64 u.toBitVec)) = _
  rw [pack_unpack]
  split
  case isTrue hnan =>
    simp only [isNaNBits, decide_eq_true_eq] at hnan
    rw [unpack_packedNaN, UnpackedFloat.unpack, if_pos hnan.1, if_neg hnan.2]
  case isFalse => rfl

theorem decode_ofBits (u : UInt64) : decode (Float.ofBits u) = .ofBits u.toNat := by
  rw [decode_eq, unpack_ofBits, ← Value.ofBits_toNat]
  rfl

/-- What is kept of a mantissa when its number gets the exponent `q`. -/
def kept (m : ℕ) (e q : ℤ) : ℕ :=
  if q ≤ e then m <<< (e - q).toNat else roundDiv m (1 <<< (q - e).toNat)

/-- The bits of the size of the double that is nearest to `m * 2 ^ e`. -/
def sizeBits (m : ℕ) (e : ℤ) : ℕ :=
  let q := if m = 0 then leastExponent else max (e + m.log2 - 52) leastExponent
  min ((q - leastExponent).toNat * fieldSize + kept m e q) (lastPlace * fieldSize)

def signedBits (negative : Bool) (bits : ℕ) : ℕ :=
  if negative then signSize + bits else bits

theorem round_eq (negative : Bool) (m : ℕ) (e : ℤ) :
    round negative m e = Float.ofBits (.ofNat (signedBits negative (sizeBits m e))) :=
  rfl

/-- The mantissa and the exponent of a finite double whose size has such bits. -/
structure SizedBy (m : ℕ) (e : ℤ) (bits : ℕ) : Prop where
  bits : bits = (e - leastExponent).toNat * fieldSize + m
  mantissa : m < 2 * fieldSize
  exponent : leastExponent ≤ e
  implicit : e = leastExponent ∨ fieldSize ≤ m

/-- The sign of a signed word is its highest bit, and its other fields are those of the size. -/
theorem fields_signedBits (negative : Bool) {bits : ℕ} (h : bits < lastPlace * fieldSize) :
    decide (signSize ≤ signedBits negative bits) = negative
      ∧ signedBits negative bits / fieldSize % (lastPlace + 1) = bits / fieldSize
      ∧ signedBits negative bits % fieldSize = bits % fieldSize := by
  have hlt : bits < 2047 * 4503599627370496 := h
  cases negative with
  | false =>
    refine ⟨decide_eq_false ?_, ?_, rfl⟩
    · show ¬ 9223372036854775808 ≤ bits
      omega
    · show bits / 4503599627370496 % 2048 = bits / 4503599627370496
      omega
  | true =>
    refine ⟨decide_eq_true (Nat.le_add_right _ _), ?_, ?_⟩
    · show (9223372036854775808 + bits) / 4503599627370496 % 2048 = bits / 4503599627370496
      omega
    · show (9223372036854775808 + bits) % 4503599627370496 = bits % 4503599627370496
      omega

theorem ofBits_signedBits (negative : Bool) {bits : ℕ} (h : bits < lastPlace * fieldSize) :
    ∃ m e, Value.ofBits (signedBits negative bits) = .finite negative m e ∧ SizedBy m e bits := by
  have hsize : fieldSize = 4503599627370496 := rfl
  have hleast : leastExponent = -1074 := rfl
  have hne : bits / fieldSize ≠ lastPlace := (Nat.div_lt_of_lt_mul (mul_comm _ fieldSize ▸ h)).ne
  obtain ⟨hnegative, hplace, hfield⟩ := fields_signedBits negative h
  unfold Value.ofBits
  simp only [hnegative, hplace, hfield, if_neg hne]
  split
  case isTrue hzero =>
    rw [hsize] at hzero
    refine ⟨_, _, rfl, ?_, ?_, le_rfl, .inl rfl⟩ <;> rw [hsize] <;> omega
  case isFalse hpos =>
    rw [hsize] at hpos
    refine ⟨_, _, rfl, ?_, ?_, ?_, .inr ?_⟩ <;> simp only [hsize, hleast] <;> omega

theorem decode_round (negative : Bool) {m : ℕ} {e : ℤ}
    (h : sizeBits m e < lastPlace * fieldSize) :
    ∃ m' e', decode (round negative m e) = .finite negative m' e'
      ∧ SizedBy m' e' (sizeBits m e) := by
  obtain ⟨m', e', hvalue, hsized⟩ := ofBits_signedBits negative h
  refine ⟨m', e', ?_, hsized⟩
  have hword : signedBits negative (sizeBits m e) < 2 ^ 64 := by
    have hsmall : lastPlace * fieldSize < 2 ^ 63 := by decide
    have hsign : signSize = 2 ^ 63 := by decide
    unfold signedBits
    split <;> omega
  rw [round_eq, decode_ofBits, UInt64.toNat_ofNat_of_lt' hword, hvalue]

theorem roundDiv_le {n d k : ℕ} (hd : 0 < d) (h : n ≤ k * d) : roundDiv n d ≤ k := by
  have hquot : n / d ≤ k := by
    rw [← Nat.mul_div_cancel k hd]
    exact Nat.div_le_div_right h
  rcases hquot.lt_or_eq with hlt | heq
  · unfold roundDiv
    dsimp only
    split
    · omega
    · split <;> omega
  · have hmod : n % d = 0 := by
      have hdiv := Nat.div_add_mod n d
      rw [heq, mul_comm] at hdiv
      omega
    rw [roundDiv, hmod, heq]
    exact (if_pos (by omega)).le

theorem kept_le {m n : ℕ} {e q : ℤ} (h : m * 2 ^ (e - q).toNat ≤ n * 2 ^ (q - e).toNat) :
    kept m e q ≤ n := by
  unfold kept
  split
  case isTrue hle =>
    have hzero : (q - e).toNat = 0 := by omega
    rw [hzero, pow_zero, mul_one] at h
    rwa [Nat.shiftLeft_eq]
  case isFalse hgt =>
    have hzero : (e - q).toNat = 0 := by omega
    rw [hzero, pow_zero, mul_one] at h
    rw [Nat.one_shiftLeft]
    exact roundDiv_le (Nat.two_pow_pos _) h

/-- A number below a normal double is rounded to no more than that. -/
theorem sizeBits_le {m n d : ℕ} {e f : ℤ} (hf : leastExponent ≤ f) (hd : f = e + d)
    (hn : fieldSize ≤ n ∧ n < 2 * fieldSize) (h : m < n * 2 ^ d) :
    sizeBits m e ≤ (f - leastExponent).toNat * fieldSize + n := by
  have hfield : 2 * fieldSize = 2 ^ 53 := rfl
  unfold sizeBits
  refine (min_le_left _ _).trans ?_
  split
  case isTrue hzero =>
    have hkept : kept m e leastExponent ≤ 0 := kept_le (by rw [hzero, zero_mul, zero_mul])
    rw [sub_self, Int.toNat_zero, zero_mul]
    omega
  case isFalse hne =>
    have hlog : m < 2 ^ (m.log2 + 1) := Nat.lt_log2_self
    have hlow : m.log2 < 53 + d := by
      rw [Nat.log2_lt hne, pow_add, ← hfield]
      exact h.trans (Nat.mul_lt_mul_of_pos_right hn.2 (Nat.two_pow_pos d))
    generalize hq : max (e + m.log2 - 52) leastExponent = q
    have hle : q ≤ f := by omega
    -- In a lower place the mantissa may be rounded up to that of the next place, but no further.
    rcases hle.lt_or_eq with hlt | rfl
    · have hkept : kept m e q ≤ 2 * fieldSize := by
        refine kept_le ?_
        calc m * 2 ^ (e - q).toNat
            ≤ 2 ^ (m.log2 + 1) * 2 ^ (e - q).toNat := Nat.mul_le_mul_right _ hlog.le
          _ = 2 ^ (m.log2 + 1 + (e - q).toNat) := (pow_add ..).symm
          _ ≤ 2 ^ (53 + (q - e).toNat) := Nat.pow_le_pow_right (by decide) (by omega)
          _ = 2 * fieldSize * 2 ^ (q - e).toNat := by rw [pow_add, hfield]
      have hstep : ((q - leastExponent).toNat + 1) * fieldSize
          ≤ (f - leastExponent).toNat * fieldSize := Nat.mul_le_mul_right _ (by omega)
      rw [add_mul, one_mul] at hstep
      omega
    · have hkept : kept m e q ≤ n := by
        have hup : (e - q).toNat = 0 := by omega
        have hdown : (q - e).toNat = d := by omega
        refine kept_le ?_
        rw [hup, hdown, pow_zero, mul_one]
        exact h.le
      exact Nat.add_le_add_left hkept _

section Turn

def turnMantissa : ℕ := 360 * 2 ^ 44

theorem unpack_turn :
    (360.0 : Float).toModel.unpack = .finite .positive turnMantissa (-44) (by decide) :=
  rfl

theorem decode_turn : decode 360.0 = .finite false turnMantissa (-44) := by
  rw [decode_eq, unpack_turn]
  rfl

def turnBits : ℕ := ((-44 : ℤ) - leastExponent).toNat * fieldSize + turnMantissa

/-- The remainder of a finite double by a full turn is finite and no longer than the turn. -/
theorem decode_rem_turn {x : Float} (h : x.isFinite = true) : ∃ negative m e bits,
    decode (rem x 360.0) = .finite negative m e ∧ SizedBy m e bits ∧ bits ≤ turnBits := by
  obtain ⟨negative, m, e, hx⟩ := isFinite_iff.1 h
  have hne : turnMantissa ≠ 0 := by decide
  have hrem : rem x 360.0 = round negative
      ((m <<< (e - min e (-44)).toNat) % (turnMantissa <<< (-44 - min e (-44)).toNat))
      (min e (-44)) := by
    rw [rem, hx, decode_turn]
    exact if_neg hne
  have hbits : sizeBits ((m <<< (e - min e (-44)).toNat)
      % (turnMantissa <<< (-44 - min e (-44)).toNat)) (min e (-44)) ≤ turnBits := by
    refine sizeBits_le (d := (-44 - min e (-44)).toNat) (by decide) (by omega) (by decide) ?_
    rw [← Nat.shiftLeft_eq]
    exact Nat.mod_lt _ (by rw [Nat.shiftLeft_eq]; positivity)
  have hsmall : turnBits < lastPlace * fieldSize := by decide
  obtain ⟨m', e', hdecode, hsized⟩ := decode_round negative (hbits.trans_lt hsmall)
  exact ⟨negative, m', e', _, hrem ▸ hdecode, hsized, hbits⟩

theorem OnSide.normalize_nonneg {m : ℤ} (hm : 0 ≤ m) (spec : Format) (e : ℤ) :
    OnSide .positive (UnpackedFloat.normalize spec m e .positive) := by
  unfold UnpackedFloat.normalize
  split
  · rename_i hlt
    have := compare_lt_iff_lt.1 hlt
    omega
  · exact .zero _
  · exact roundWithAccuracy ..

theorem le_turn_of_bits {m bits : ℕ} {e : ℤ} (hsized : SizedBy m e bits) (hbits : bits ≤ turnBits) :
    m <<< (e - min e (-44)).toNat ≤ turnMantissa <<< (-44 - min e (-44)).toNat := by
  obtain ⟨hsize, hmantissa, hexponent, himplicit⟩ := hsized
  have hturn : turnBits = 1030 * fieldSize + turnMantissa := rfl
  have hnormal : fieldSize ≤ turnMantissa ∧ turnMantissa < 2 * fieldSize := by decide
  have hleast : leastExponent = -1074 := rfl
  rw [Nat.shiftLeft_eq, Nat.shiftLeft_eq]
  rcases lt_trichotomy e (-44) with hlt | rfl | hgt
  · have hup : (e - min e (-44)).toNat = 0 := by omega
    have hdown : 1 ≤ (-44 - min e (-44)).toNat := by omega
    calc m * 2 ^ (e - min e (-44)).toNat = m := by rw [hup, pow_zero, mul_one]
      _ ≤ turnMantissa * 2 ^ 1 := by omega
      _ ≤ turnMantissa * 2 ^ (-44 - min e (-44)).toNat :=
        Nat.mul_le_mul_left _ (Nat.pow_le_pow_right (by decide) hdown)
  · have hplaces : ((-44 : ℤ) - leastExponent).toNat = 1030 := rfl
    rw [hplaces] at hsize
    refine Nat.mul_le_mul_right _ ?_
    omega
  · have hplaces : 1031 ≤ (e - leastExponent).toNat := by omega
    have hlarge := Nat.mul_le_mul_right fieldSize hplaces
    omega

theorem unpack_of_decode {x : Float} {negative : Bool} {m : ℕ} {e : ℤ}
    (h : decode x = .finite negative m e) : (∃ s, x.toModel.unpack = .zero s)
      ∨ ∃ hm, x.toModel.unpack = .finite (if negative then .negative else .positive) m e hm := by
  rw [decode_eq] at h
  generalize x.toModel.unpack = u at h ⊢
  rcases u with s | _ | s | ⟨s, m', e', hm⟩
  · cases h
  · cases h
  · exact .inl ⟨s, rfl⟩
  · obtain ⟨rfl, rfl, rfl⟩ := Value.finite.inj h
    cases s <;> exact .inr ⟨hm, rfl⟩

/-- A turn outweighs what is no longer. -/
theorem add_turn_nonneg {r : Float} {m bits : ℕ} {e : ℤ} (h : decode r = .finite true m e)
    (hsized : SizedBy m e bits) (hbits : bits ≤ turnBits) : 0.0 ≤ r + 360.0 := by
  rw [nonneg_iff]
  change OnSide .positive
    (Float.Model.pack (.add .binary64 r.toModel.unpack (360.0 : Float).toModel.unpack)).unpack
  refine OnSide.unpack_pack ?_
  rw [unpack_turn]
  rcases unpack_of_decode h with ⟨s, hzero⟩ | ⟨hm, hfinite⟩
  · rw [hzero]
    exact .finite _ _ _
  · rw [hfinite]
    have hle := le_turn_of_bits hsized hbits
    refine OnSide.normalize_nonneg ?_ _ _
    show (0 : ℤ) ≤ -((m <<< (e - min e (-44)).toNat : ℕ) : ℤ)
      + ((turnMantissa <<< (-44 - min e (-44)).toNat : ℕ) : ℤ)
    omega

theorem nonneg_of_decode {r : Float} {m : ℕ} {e : ℤ} (h : decode r = .finite false m e) :
    0.0 ≤ r := by
  rw [nonneg_iff]
  rcases unpack_of_decode h with ⟨s, hzero⟩ | ⟨hm, hfinite⟩
  · rw [hzero]
    exact .zero s
  · rw [hfinite]
    exact .finite ..

theorem rem_of_not_isFinite {x : Float} (h : ¬ x.isFinite = true) : rem x 360.0 = nan := by
  have hdecode (negative : Bool) (m : ℕ) (e : ℤ) : decode x ≠ .finite negative m e := fun hc =>
    h (isFinite_iff.2 ⟨negative, m, e, hc⟩)
  unfold rem
  rcases hx : decode x with _ | negative | ⟨negative, m, e⟩
  · rfl
  · rfl
  · exact absurd hx (hdecode negative m e)

end Turn

end PitFleet.Double

namespace PitFleet.Heading

open Double

/-- Within one turn. -/
def Proper {α : Type} [Scalar α] (x : α) : Prop :=
  0.0 ≤ x ∧ x < 360.0

instance (x : Float) : Decidable (Proper x) :=
  inferInstanceAs (Decidable (_ ∧ _))

theorem turnRemainder_nonneg {x : Float} (h : x.isFinite = true) : 0.0 ≤ turnRemainder x := by
  obtain ⟨negative, m, e, bits, hdecode, hsized, hbits⟩ := decode_rem_turn h
  have habs : Scalar.abs (360.0 : Float) = 360.0 := by decide +kernel
  have hzero : Scalar.isNaN (0.0 : Float) = false := by decide +kernel
  simp only [turnRemainder, habs]
  split
  case isTrue hneg =>
    cases negative with
    | true => exact add_turn_nonneg hdecode hsized hbits
    | false => exact absurd hneg (Scalar.not_lt_of_le (nonneg_of_decode hdecode))
  case isFalse hpos =>
    have hfinite : (rem x 360.0).isFinite = true := isFinite_iff.2 ⟨_, _, _, hdecode⟩
    exact Scalar.le_of_not_lt (SignedScalar.isNaN_of_isFinite hfinite) hzero hpos

theorem normalize_of_not_isFinite {x : Float} (h : ¬ x.isFinite = true) : normalize x = nan := by
  have hrem : Scalar.rem x 360.0 = nan := rem_of_not_isFinite h
  simp only [normalize, turnRemainder, hrem]
  decide +kernel

theorem Proper.isFinite {x : Float} (h : Proper x) : x.isFinite = true := by
  have hside := nonneg_iff.1 h.1
  obtain ⟨p, q, hp, hq, hlt⟩ := (lt_iff_place _ _).1 h.2
  show x.toModel.unpack.isFinite = true
  generalize x.toModel.unpack = u at hside hp ⊢
  cases hside with
  | zero => rfl
  | finite => rfl
  | infinity =>
    cases hp
    rw [unpack_turn] at hq
    cases hq
    simp [Prod.Lex.toLex_lt_toLex] at hlt

theorem isFinite_of_normalize {x : Float} (h : (normalize x).isFinite = true) :
    x.isFinite = true := by
  by_contra hnot
  rw [normalize_of_not_isFinite hnot] at h
  exact absurd h (by decide +kernel)

/-- A normal heading is within one turn exactly if the angle is finite. -/
theorem proper_normalize_iff {x : Float} : Proper (normalize x) ↔ x.isFinite = true := by
  constructor
  · intro h
    exact isFinite_of_normalize h.isFinite
  · intro h
    have hnonneg := turnRemainder_nonneg h
    unfold normalize
    dsimp only
    split
    · decide +kernel
    case isFalse hlt =>
      have hturn : Scalar.isNaN (360.0 : Float) = false := by decide +kernel
      have hnum := (OrderedScalar.isNaN_of_le hnonneg).2
      exact ⟨hnonneg, Scalar.lt_of_not_le hturn hnum hlt⟩

theorem isFinite_normalize_iff {x : Float} : (normalize x).isFinite = true ↔ x.isFinite = true :=
  ⟨isFinite_of_normalize, fun h => (proper_normalize_iff.2 h).isFinite⟩

end PitFleet.Heading
