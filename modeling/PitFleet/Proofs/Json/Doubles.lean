import Mathlib
import PitFleet.Proofs.Json.Numerals
import PitFleet.Proofs.Number.Shortest

/-!
# The text of a double is a numeral

A finite double is written as a whole part without leading zeros, with a fraction, an exponent or
both behind it, and such a text is read to its end (`numeral_write`). Which number comes out
(`textNumber`) is left to the reader, who does not always find the nearest double.
-/

namespace PitFleet.Json

section Parts

def IsDigits (cs : List Char) : Prop :=
  cs ≠ [] ∧ ∀ c ∈ cs, c.isDigit = true

/-- Digits that a numeral may begin with: a zero stands alone. -/
structure IsWhole (cs : List Char) : Prop where
  digits : IsDigits cs
  zero : cs.head? = some '0' → cs.length = 1

inductive FractionText : List Char → Prop
  | none : FractionText []
  | some {cs : List Char} (h : IsDigits cs) : FractionText ('.' :: cs)

inductive ExponentText : List Char → Prop
  | none : ExponentText []
  | some {c : Char} {cs : List Char} (hc : c = '+' ∨ c = '-') (h : IsDigits cs) :
    ExponentText ('e' :: c :: cs)

variable {cs rest : List Char}

theorem IsDigits.someDigits (h : IsDigits cs) (hrest : NoDigit rest) :
    someDigits (cs ++ rest) = .ok (cs, rest) :=
  someDigits_eq_ok_iff.2 ⟨rfl, h.1, h.2, hrest⟩

theorem isWhole_zero : IsWhole ['0'] :=
  ⟨⟨nofun, List.forall_mem_singleton.2 rfl⟩, fun _ => rfl⟩

theorem IsWhole.wholePart (h : IsWhole cs) (hrest : NoDigit rest) :
    wholePart (cs ++ rest) = .ok (cs, rest) := by
  have hzero : ¬ (cs.head? = some '0' ∧ cs.length ≠ 1) := fun hc => hc.2 (h.zero hc.1)
  simp only [Json.wholePart, h.digits.someDigits hrest, bind, Except.bind, if_neg hzero]

theorem FractionText.fractionPart (h : FractionText cs) (hdigit : NoDigit rest)
    (hpoint : ∀ c ∈ rest.head?, c ≠ '.') :
    ∃ fraction, fractionPart (cs ++ rest) = .ok (fraction, rest) := by
  cases h with
  | none => exact ⟨_, fractionPart_of_ne hpoint⟩
  | @some ds h => exact ⟨_, bind_eq_ok_iff.2 ⟨_, h.someDigits hdigit, rfl⟩⟩

theorem ExponentText.exponentPart (h : ExponentText cs) :
    ∃ exponent, exponentPart cs = .ok (exponent, []) := by
  cases h with
  | none => exact ⟨_, rfl⟩
  | @some c ds hc h =>
    have hend : NoDigit [] := by simp [NoDigit]
    have hdigits := h.someDigits hend
    rw [List.append_nil] at hdigits
    rcases hc with rfl | rfl <;> exact ⟨_, bind_eq_ok_iff.2 ⟨_, hdigits, rfl⟩⟩

theorem FractionText.noDigit (h : FractionText cs) (hrest : NoDigit rest) :
    NoDigit (cs ++ rest) := by
  cases h with
  | none => exact hrest
  | some h =>
    rintro c ⟨⟩
    rfl

theorem ExponentText.ends (h : ExponentText cs) :
    NoDigit cs ∧ ∀ c ∈ cs.head?, c ≠ '.' := by
  cases h with
  | none => exact ⟨nofun, nofun⟩
  | some hc h =>
    constructor <;> rintro c ⟨⟩
    · rfl
    · decide

theorem exists_unsigned {whole fraction exponent : List Char} (hwhole : IsWhole whole)
    (hfraction : FractionText fraction) (hexponent : ExponentText exponent) (negative : Bool) :
    ∃ n, unsigned negative (whole ++ (fraction ++ exponent)) = .ok (n, []) := by
  obtain ⟨hdigit, hpoint⟩ := hexponent.ends
  obtain ⟨f, hf⟩ := hfraction.fractionPart hdigit hpoint
  obtain ⟨e, he⟩ := hexponent.exponentPart
  refine ⟨numeralValue negative whole f e, ?_⟩
  refine bind_eq_ok_iff.2 ⟨_, hwhole.wholePart (hfraction.noDigit hdigit), ?_⟩
  exact bind_eq_ok_iff.2 ⟨_, hf, bind_eq_ok_iff.2 ⟨_, he, rfl⟩⟩

end Parts

section Text

/-- The text of a numeral without a sign. -/
def IsUnsigned (cs : List Char) : Prop :=
  ∃ whole fraction exponent, IsWhole whole ∧ FractionText fraction ∧ ExponentText exponent
    ∧ cs = whole ++ (fraction ++ exponent)

theorem IsUnsigned.numeral {cs : List Char} (h : IsUnsigned cs) (negative : Bool) :
    ∃ n, numeral ((if negative then ['-'] else []) ++ cs) = .ok (n, []) := by
  obtain ⟨whole, fraction, exponent, hwhole, hfraction, hexponent, rfl⟩ := h
  obtain ⟨n, hn⟩ := exists_unsigned hwhole hfraction hexponent negative
  refine ⟨n, ?_⟩
  cases negative with
  | true => exact hn
  | false =>
    obtain ⟨c, ds, rfl⟩ := List.exists_cons_of_ne_nil hwhole.digits.1
    have hc : c ≠ '-' := by
      rintro rfl
      exact absurd (hwhole.digits.2 '-' List.mem_cons_self) (by decide)
    exact (numeral_of_ne hc).trans hn

theorem toList_pushn (s : String) (c : Char) (n : ℕ) :
    (s.pushn c n).toList = s.toList ++ List.replicate n c := by
  rw [String.pushn_eq_repeat_push]
  induction n with
  | zero => exact (List.append_nil _).symm
  | succ n ih => rw [Nat.repeat, String.toList_push, ih, List.append_assoc, List.replicate_succ']

theorem isDigits_toDigits (n : ℕ) : IsDigits (Nat.toDigits 10 n) :=
  ⟨Nat.toDigits_ne_nil, fun _ hc => Nat.isDigit_of_mem_toDigits (by decide) (by decide) hc⟩

theorem isDigits_zeros_append {cs : List Char} (h : IsDigits cs) (n : ℕ) :
    IsDigits (List.replicate n '0' ++ cs) := by
  refine ⟨by simp [h.1], List.forall_mem_append.2 ⟨fun c hc => ?_, h.2⟩⟩
  rw [List.eq_of_mem_replicate hc]
  rfl

/-- Digits without leading zeros, with the zeros that may follow them. -/
theorem isWhole_append_zeros {cs : List Char} (h : IsDigits cs) (hhead : cs.head? ≠ some '0')
    (n : ℕ) : IsWhole (cs ++ List.replicate n '0') := by
  refine ⟨⟨by simp [h.1], List.forall_mem_append.2 ⟨h.2, fun c hc => ?_⟩⟩, fun hzero => ?_⟩
  · rw [List.eq_of_mem_replicate hc]
    rfl
  · rw [List.head?_append_of_ne_nil _ h.1] at hzero
    exact absurd hzero hhead

variable {digits : String} (h : IsDigits digits.toList)
include h

theorem isUnsigned_point (hhead : digits.toList.head? ≠ some '0') (whole : ℤ) :
    IsUnsigned (NumberStyle.json.point digits whole).toList := by
  simp only [NumberStyle.point]
  split_ifs with hlow hhigh
  · refine ⟨['0'], _, [], isWhole_zero, .some (isDigits_zeros_append h (-whole).toNat), .none, ?_⟩
    simp [toList_pushn]
  · have hwhole := isWhole_append_zeros h hhead (whole - digits.length).toNat
    refine ⟨_, ['.', '0'], [], hwhole, .some isWhole_zero.digits, .none, ?_⟩
    rw [String.toList_append, toList_pushn]
    rfl
  · rename_i hpoint
    exact absurd rfl hpoint
  · -- The point stands between the digits.
    rw [← String.length_toList] at hhigh
    have hwhole : IsDigits (digits.toList.take whole.toNat) := by
      refine ⟨fun hnil => ?_, fun c hc => h.2 c (List.mem_of_mem_take hc)⟩
      rw [List.take_eq_nil_iff] at hnil
      rcases hnil with hnil | hnil
      · omega
      · exact h.1 hnil
    have hfraction : IsDigits (digits.toList.drop whole.toNat) := by
      refine ⟨fun hnil => ?_, fun c hc => h.2 c (List.mem_of_mem_drop hc)⟩
      rw [List.drop_eq_nil_iff] at hnil
      omega
    refine ⟨_, _, [], ⟨hwhole, fun hc => ?_⟩, .some hfraction, .none, ?_⟩
    · rw [List.head?_take, if_neg (by omega)] at hc
      exact absurd hc hhead
    · simp

theorem isUnsigned_scientific (exponent : ℤ) :
    IsUnsigned (NumberStyle.scientific digits exponent).toList := by
  obtain ⟨c, ds, hcs⟩ := List.exists_cons_of_ne_nil h.1
  rw [hcs] at h
  have hwhole : IsWhole [c] :=
    ⟨⟨nofun, List.forall_mem_singleton.2 (h.2 c List.mem_cons_self)⟩, fun _ => rfl⟩
  have hfraction : ∃ fraction, FractionText fraction ∧ fraction
      = (if (String.ofList ds).isEmpty then "" else "." ++ String.ofList ds).toList := by
    split_ifs with hnil
    · exact ⟨_, .none, rfl⟩
    · rw [String.isEmpty_iff, ← String.toList_eq_nil_iff, String.toList_ofList] at hnil
      exact ⟨_, .some ⟨hnil, fun d hd => h.2 d (List.mem_cons_of_mem _ hd)⟩, by simp⟩
  have hexponent : ∃ tail, ExponentText ('e' :: tail)
      ∧ tail = ((if exponent < 0 then "" else "+") ++ toString exponent).toList := by
    rw [Int.toString_eq_repr, Int.repr_eq_if]
    split_ifs with hneg hnonneg hnonneg
    · omega
    · exact ⟨_, .some (c := '-') (.inr rfl) (isDigits_toDigits (-exponent).toNat), by simp⟩
    · exact ⟨_, .some (c := '+') (.inl rfl) (isDigits_toDigits exponent.toNat), by simp⟩
    · omega
  obtain ⟨fraction, hfraction, hf⟩ := hfraction
  obtain ⟨tail, htail, ht⟩ := hexponent
  refine ⟨[c], fraction, _, hwhole, hfraction, htail, ?_⟩
  simp [NumberStyle.scientific, hcs, hf, ht]

omit h in
theorem isUnsigned_write {x : Float} {negative : Bool} {m : ℕ} {e : ℤ}
    (hx : Double.decode x = .finite negative m e) :
    IsUnsigned (NumberStyle.json.unsigned m e).toList := by
  obtain ⟨hmantissa, hlow, hhigh⟩ := Double.decode_bounds hx
  have hleast : Double.leastExponent = -1074 := rfl
  unfold NumberStyle.unsigned
  split_ifs with hm
  · exact ⟨['0'], ['.', '0'], [], isWhole_zero, .some isWhole_zero.digits, .none, rfl⟩
  · have hlog : m.log2 < 53 := (Nat.log2_lt hm).2 hmantissa
    have hdigits := Shortest.digits_ne_zero NumberStyle.json.tie (m := m) (e := e) hm (by omega)
      (by omega)
    generalize Shortest.digits NumberStyle.json.tie m e = d at hdigits
    have htext : (toString d.digits).toList = Nat.toDigits 10 d.digits := by
      rw [Nat.toString_eq_repr, Nat.toList_repr]
    have hcs := isDigits_toDigits d.digits
    have hhead := head?_toDigits_ne_zero d.digits (Nat.pos_of_ne_zero hdigits)
    rw [← htext] at hcs hhead
    simp only [NumberStyle.json]
    split_ifs
    · exact isUnsigned_point hcs hhead _
    · exact isUnsigned_scientific hcs _

end Text

/-- The text of a finite double is read to its end. -/
theorem exists_numeral_write {x : Float} (hx : x.isFinite = true) :
    ∃ n, numeral (NumberStyle.json.write x).toList = .ok (n, []) := by
  obtain ⟨negative, m, e, hdecode⟩ := Double.isFinite_iff.1 hx
  obtain ⟨n, hn⟩ := (isUnsigned_write hdecode).numeral negative
  refine ⟨n, ?_⟩
  rw [← hn, NumberStyle.write, hdecode, String.toList_append]
  cases negative <;> rfl

/-- The number that the text of a finite double is read as, none if that is beyond all doubles. -/
def textNumber (x : Float) : Option Number :=
  match numeral (NumberStyle.json.write x).toList with
  | .ok (n, _) => n
  | .error _ => none

theorem numeral_write {x : Float} (hx : x.isFinite = true) :
    numeral (NumberStyle.json.write x).toList = .ok (textNumber x, []) := by
  obtain ⟨n, hn⟩ := exists_numeral_write hx
  rw [textNumber, hn]

end PitFleet.Json
