import Mathlib.Data.Int.Notation
import Mathlib.Data.List.TakeWhile
import Mathlib.Tactic.Common
import PitFleet.Json.Basic
import PitFleet.Json.Numeral

/-!
# Numerals are read back

Whole numbers of 64 bits are read as themselves (`numeral_integer`), and a numeral that is read
whole is read alike in front of anything that cannot continue it (`numeral_append`). Not every double
is read as itself, since numerals are read fast rather than exactly: `ReadsBack` says so of one.
-/

namespace PitFleet.Json

/-- The text of a double is a numeral that is read as the same double. -/
def ReadsBack (x : Float) : Prop :=
  numeral (NumberStyle.json.write x).toList = .ok (some (.real x), [])

theorem bind_eq_ok_iff {ε α β : Type} {x : Except ε α} {f : α → Except ε β} {b : β} :
    (x >>= f) = .ok b ↔ ∃ a, x = .ok a ∧ f a = .ok b := by
  cases x <;> simp [bind, Except.bind]

section Digits

/-- Nothing that is a digit comes next. -/
def NoDigit (cs : List Char) : Prop :=
  ∀ c ∈ cs.head?, c.isDigit = false

theorem someDigits_eq_ok_iff {cs digits rest : List Char} :
    someDigits cs = .ok (digits, rest) ↔
      cs = digits ++ rest ∧ digits ≠ [] ∧ (∀ c ∈ digits, c.isDigit = true) ∧ NoDigit rest := by
  simp only [someDigits, List.isEmpty_iff]
  constructor
  · intro h
    split_ifs at h with hnil
    obtain ⟨rfl, rfl⟩ := Prod.mk.inj (Except.ok.inj h)
    refine ⟨List.takeWhile_append_dropWhile.symm, hnil, fun c hc => List.mem_takeWhile_imp hc, ?_⟩
    intro c hc
    have hhead := List.head?_dropWhile_not Char.isDigit cs
    rw [Option.mem_def.1 hc] at hhead
    simpa using hhead
  · rintro ⟨rfl, hnil, hall, hrest⟩
    have htake : rest.takeWhile Char.isDigit = [] := by
      cases rest with
      | nil => rfl
      | cons c cs => exact List.takeWhile_cons_of_neg (by simp [hrest c rfl])
    have hdrop : rest.dropWhile Char.isDigit = rest := by
      cases rest with
      | nil => rfl
      | cons c cs => exact List.dropWhile_cons_of_neg (by simp [hrest c rfl])
    rw [List.takeWhile_append_of_pos hall, List.dropWhile_append_of_pos hall, htake, hdrop,
      List.append_nil, if_neg hnil]

theorem NoDigit.append {cs rest : List Char} (h : NoDigit cs) (h' : NoDigit rest) :
    NoDigit (cs ++ rest) := by
  cases cs with
  | nil => exact h'
  | cons c cs => exact h

theorem someDigits_append {cs digits tail rest : List Char} (h : someDigits cs = .ok (digits, tail))
    (hrest : NoDigit rest) : someDigits (cs ++ rest) = .ok (digits, tail ++ rest) := by
  obtain ⟨rfl, hnil, hall, htail⟩ := someDigits_eq_ok_iff.1 h
  exact someDigits_eq_ok_iff.2 ⟨List.append_assoc .., hnil, hall, htail.append hrest⟩

end Digits

section Sign

/-- A numeral behind its sign. -/
def unsigned (negative : Bool) (cs : List Char) : Except Break (Option Number × List Char) := do
  let (whole, cs) ← wholePart cs
  let (fraction, cs) ← fractionPart cs
  let (exponent, cs) ← exponentPart cs
  return (numeralValue negative whole fraction exponent, cs)

theorem numeral_of_ne {c : Char} {cs : List Char} (h : c ≠ '-') :
    numeral (c :: cs) = unsigned false (c :: cs) := by
  unfold numeral
  split
  rename_i hsign
  split at hsign
  · rename_i heq
    exact absurd (List.cons.inj heq).1 h
  · cases hsign
    rfl

end Sign

section Append

/-- Nothing comes next that could continue a numeral. -/
def EndsNumeral (cs : List Char) : Prop :=
  ∀ c ∈ cs.head?, c.isDigit = false ∧ c ≠ '.' ∧ c ≠ 'e' ∧ c ≠ 'E'

variable {rest : List Char} (hrest : EndsNumeral rest)
include hrest

theorem EndsNumeral.noDigit : NoDigit rest :=
  fun c hc => (hrest c hc).1

theorem wholePart_append {cs tail : List Char} {whole : List Char}
    (h : wholePart cs = .ok (whole, tail)) :
    wholePart (cs ++ rest) = .ok (whole, tail ++ rest) := by
  obtain ⟨⟨digits, tail'⟩, hdigits, hzero⟩ := bind_eq_ok_iff.1 h
  refine bind_eq_ok_iff.2 ⟨_, someDigits_append hdigits hrest.noDigit, ?_⟩
  dsimp only at hzero ⊢
  split_ifs at hzero ⊢
  cases hzero
  rfl

omit hrest in
theorem fractionPart_of_ne {cs : List Char} (h : ∀ c ∈ cs.head?, c ≠ '.') :
    fractionPart cs = .ok (none, cs) := by
  unfold fractionPart
  split
  · exact absurd rfl (h '.' rfl)
  · rfl

theorem fractionPart_append {cs tail : List Char} {fraction : Option (List Char)}
    (h : fractionPart cs = .ok (fraction, tail)) :
    fractionPart (cs ++ rest) = .ok (fraction, tail ++ rest) := by
  unfold fractionPart at h
  split at h
  · obtain ⟨⟨digits, tail'⟩, hdigits, hend⟩ := bind_eq_ok_iff.1 h
    cases hend
    exact bind_eq_ok_iff.2 ⟨_, someDigits_append hdigits hrest.noDigit, rfl⟩
  · rename_i hpoint
    cases h
    refine fractionPart_of_ne fun c hc => ?_
    cases cs with
    | nil => exact (hrest c hc).2.1
    | cons d ds =>
      rintro rfl
      cases hc
      exact hpoint ds rfl

omit hrest in
theorem exponentPart_of_ne {cs : List Char} (h : ∀ c ∈ cs.head?, c ≠ 'e' ∧ c ≠ 'E') :
    exponentPart cs = .ok (none, cs) := by
  cases cs with
  | nil => rfl
  | cons c cs => exact if_neg fun hc => hc.elim (h c rfl).1 (h c rfl).2

omit hrest in
/-- Digits stand behind the sign, so that the sign is the same whatever follows them. -/
theorem exponentSign_append {cs digits tail rest : List Char}
    (h : someDigits (exponentSign cs).2 = .ok (digits, tail)) :
    exponentSign (cs ++ rest) = ((exponentSign cs).1, (exponentSign cs).2 ++ rest) := by
  cases cs with
  | nil => cases h
  | cons c cs =>
    unfold exponentSign
    split <;> simp_all

theorem exponentPart_append {cs tail : List Char} {exponent : Option ℤ}
    (h : exponentPart cs = .ok (exponent, tail)) :
    exponentPart (cs ++ rest) = .ok (exponent, tail ++ rest) := by
  cases cs with
  | nil =>
    cases h
    exact exponentPart_of_ne fun c hc => (hrest c hc).2.2
  | cons c cs =>
    rw [exponentPart] at h
    split_ifs at h with hmark
    · obtain ⟨⟨digits, tail'⟩, hdigits, hend⟩ := bind_eq_ok_iff.1 h
      cases hend
      rw [List.cons_append, exponentPart, if_pos hmark, exponentSign_append hdigits]
      exact bind_eq_ok_iff.2 ⟨_, someDigits_append hdigits hrest.noDigit, rfl⟩
    · cases h
      exact if_neg hmark

theorem unsigned_append {negative : Bool} {cs tail : List Char} {n : Option Number}
    (h : unsigned negative cs = .ok (n, tail)) :
    unsigned negative (cs ++ rest) = .ok (n, tail ++ rest) := by
  obtain ⟨⟨whole, cs₁⟩, hwhole, h⟩ := bind_eq_ok_iff.1 h
  obtain ⟨⟨fraction, cs₂⟩, hfraction, h⟩ := bind_eq_ok_iff.1 h
  obtain ⟨⟨exponent, cs₃⟩, hexponent, h⟩ := bind_eq_ok_iff.1 h
  cases h
  refine bind_eq_ok_iff.2 ⟨_, wholePart_append hrest hwhole, ?_⟩
  refine bind_eq_ok_iff.2 ⟨_, fractionPart_append hrest hfraction, ?_⟩
  exact bind_eq_ok_iff.2 ⟨_, exponentPart_append hrest hexponent, rfl⟩

theorem numeral_append {cs tail : List Char} {n : Option Number} (h : numeral cs = .ok (n, tail)) :
    numeral (cs ++ rest) = .ok (n, tail ++ rest) := by
  cases cs with
  | nil => cases h
  | cons c cs =>
    by_cases hc : c = '-'
    · subst hc
      exact unsigned_append hrest h
    · rw [numeral_of_ne hc] at h
      exact (numeral_of_ne hc).trans (unsigned_append hrest h)

end Append

/-- A numeral begins with a sign or a digit. -/
theorem exists_cons_of_numeral {cs rest : List Char} {n : Option Number}
    (h : numeral cs = .ok (n, rest)) :
    ∃ c cs', cs = c :: cs' ∧ (c = '-' ∨ c.isDigit = true) := by
  cases cs with
  | nil => cases h
  | cons c cs =>
    refine ⟨c, cs, rfl, or_iff_not_imp_left.2 fun hc => ?_⟩
    rw [numeral_of_ne hc] at h
    obtain ⟨⟨whole, cs₁⟩, hwhole, -⟩ := bind_eq_ok_iff.1 h
    obtain ⟨⟨digits, tail⟩, hdigits, -⟩ := bind_eq_ok_iff.1 hwhole
    obtain ⟨hcs, hnil, hall, -⟩ := someDigits_eq_ok_iff.1 hdigits
    cases digits with
    | nil => exact absurd rfl hnil
    | cons d digits =>
      obtain rfl := (List.cons.inj hcs).1
      exact hall c List.mem_cons_self

section Integer

theorem ofDigits_toDigits (n : ℕ) : Reading.ofDigits (Nat.toDigits 10 n) = n :=
  Nat.ofDigitChars_ten_toDigits

theorem digitChar_ne_zero : ∀ n < 10, 0 < n → n.digitChar ≠ '0' := by
  decide

theorem head?_toDigits_ne_zero (n : ℕ) (hn : 0 < n) : (Nat.toDigits 10 n).head? ≠ some '0' := by
  induction n using Nat.strongRecOn with
  | ind n ih =>
    rw [Nat.toDigits_eq_if (by decide)]
    split
    · rename_i hlt
      simpa using digitChar_ne_zero n hlt hn
    · rw [List.head?_append, Option.or_of_isSome (List.isSome_head?.2 Nat.toDigits_ne_nil)]
      exact ih (n / 10) (by omega) (by omega)

theorem wholePart_toDigits (n : ℕ) :
    wholePart (Nat.toDigits 10 n) = .ok (Nat.toDigits 10 n, []) := by
  have hdigits : someDigits (Nat.toDigits 10 n) = .ok (Nat.toDigits 10 n, []) :=
    someDigits_eq_ok_iff.2 ⟨(List.append_nil _).symm, Nat.toDigits_ne_nil,
      fun c hc => Nat.isDigit_of_mem_toDigits (by decide) (by decide) hc, by simp [NoDigit]⟩
  have hzero : ¬ ((Nat.toDigits 10 n).head? = some '0' ∧ (Nat.toDigits 10 n).length ≠ 1) := by
    rintro ⟨hhead, hlength⟩
    rcases Nat.eq_zero_or_pos n with rfl | hpos
    · exact hlength rfl
    · exact head?_toDigits_ne_zero n hpos hhead
  simp only [wholePart, hdigits, bind, Except.bind, if_neg hzero]

theorem numeralValue_integer {negative : Bool} {cs : List Char} {n : ℤ}
    (hn : (if negative then -(Reading.ofDigits cs : ℤ) else Reading.ofDigits cs) = n)
    (hfits : Int64.minValue.toInt ≤ n ∧ n < UInt64.size) (hsign : ¬ (negative = true ∧ n = 0)) :
    numeralValue negative cs none none = some (.integer n) := by
  unfold numeralValue
  simp only [hn]
  exact if_pos ⟨rfl, rfl, hfits, hsign⟩

theorem unsigned_toDigits (negative : Bool) (n : ℕ) :
    unsigned negative (Nat.toDigits 10 n)
      = .ok (numeralValue negative (Nat.toDigits 10 n) none none, []) :=
  bind_eq_ok_iff.2 ⟨_, wholePart_toDigits n, rfl⟩

theorem numeral_toDigits (n : ℕ) :
    numeral (Nat.toDigits 10 n) = .ok (numeralValue false (Nat.toDigits 10 n) none none, []) := by
  rw [← unsigned_toDigits]
  rcases hdigits : Nat.toDigits 10 n with _ | ⟨c, cs⟩
  · exact absurd hdigits Nat.toDigits_ne_nil
  · refine numeral_of_ne ?_
    rintro rfl
    have hdigit : Char.isDigit '-' = true :=
      Nat.isDigit_of_mem_toDigits (by decide) (by decide) (hdigits ▸ List.mem_cons_self)
    exact absurd hdigit (by decide)

theorem numeral_integer {n : ℤ} (hfits : Int64.minValue.toInt ≤ n ∧ n < UInt64.size) :
    numeral (toString n).toList = .ok (some (.integer n), []) := by
  rw [Int.toString_eq_repr, Int.repr_eq_if]
  split
  · rename_i hn
    rw [Nat.toList_repr, numeral_toDigits, numeralValue_integer _ hfits (by simp)]
    rw [ofDigits_toDigits, if_neg (by simp)]
    exact Int.toNat_of_nonneg hn
  · rename_i hn
    rw [String.toList_append, Nat.toList_repr]
    refine (unsigned_toDigits true _).trans ?_
    rw [numeralValue_integer _ hfits (by omega)]
    rw [ofDigits_toDigits, if_pos rfl]
    omega

end Integer

end PitFleet.Json
