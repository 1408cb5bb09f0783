import Mathlib.Data.Int.Notation
import Mathlib.Tactic.Common
import PitFleet.Json.Basic
import PitFleet.Proofs.Json.Quoting

/-!
# A value on one line

Written on one line, a value has no control character in its text, whatever its names and strings
hold (`printable_write`): between quotes a control character stands behind marks
(`printable_quote`), and numbers are written with digits, letters, signs and points only
(`NumberStyle.printable_write`).
-/

namespace PitFleet

/-- None of the characters is a control character. -/
def Printable (cs : List Char) : Prop :=
  ∀ c ∈ cs, 32 ≤ c.toNat

-- Named, since what is inferred may go through all the characters there are.
instance (cs : List Char) : Decidable (Printable cs) :=
  List.decidableBAll (fun c : Char => 32 ≤ c.toNat) cs

namespace Printable

variable {cs ds : List Char}

@[simp] theorem nil : Printable [] :=
  nofun

@[simp] theorem cons_iff {c : Char} : Printable (c :: cs) ↔ 32 ≤ c.toNat ∧ Printable cs :=
  List.forall_mem_cons

@[simp] theorem append_iff : Printable (cs ++ ds) ↔ Printable cs ∧ Printable ds :=
  List.forall_mem_append

theorem subset (h : Printable cs) (hsub : ds ⊆ cs) : Printable ds :=
  fun c hc => h c (hsub hc)

theorem newline_notMem (h : Printable cs) : '\n' ∉ cs := fun hc =>
  absurd (h '\n' hc) (by decide)

theorem flatMap {τ : Type} {f : τ → List Char} {xs : List τ} (h : ∀ x ∈ xs, Printable (f x)) :
    Printable (xs.flatMap f) := fun c hc => by
  obtain ⟨x, hx, hmem⟩ := List.mem_flatMap.1 hc
  exact h x hx c hmem

theorem toDigits (n : ℕ) : Printable (Nat.toDigits 10 n) := fun c hc => by
  have hdigit := Nat.isDigit_of_mem_toDigits (by decide) (by decide) hc
  simp only [Char.isDigit, Bool.and_eq_true, decide_eq_true_eq, ge_iff_le] at hdigit
  have hlow : 48 ≤ c.toNat := hdigit.1
  omega

theorem toString_nat (n : ℕ) : Printable (toString n).toList := by
  rw [Nat.toString_eq_repr, Nat.toList_repr]
  exact toDigits n

theorem toString_int (n : ℤ) : Printable (toString n).toList := by
  rw [Int.toString_eq_repr, Int.repr_eq_if]
  split
  · rw [Nat.toList_repr]
    exact toDigits _
  · rw [String.toList_append, Nat.toList_repr, append_iff]
    exact ⟨by decide, toDigits _⟩

theorem pushn {s : String} {c : Char} (h : Printable s.toList) (hc : 32 ≤ c.toNat) (n : ℕ) :
    Printable (s.pushn c n).toList := by
  rw [String.pushn_eq_repeat_push]
  induction n with
  | zero => exact h
  | succ n ih =>
    rw [Nat.repeat, String.toList_push, append_iff]
    exact ⟨ih, cons_iff.2 ⟨hc, nil⟩⟩

end Printable

namespace NumberStyle

variable {digits : String} (h : Printable digits.toList)
include h

theorem printable_point (style : NumberStyle) (whole : ℤ) :
    Printable (style.point digits whole).toList := by
  unfold point
  dsimp only
  split_ifs
  · simp only [String.toList_append, Printable.append_iff]
    exact ⟨⟨by decide, Printable.pushn (by decide) (by decide) _⟩, h⟩
  · rw [String.toList_append, Printable.append_iff]
    exact ⟨h.pushn (by decide) _, by decide⟩
  · rw [String.toList_append, Printable.append_iff]
    exact ⟨h.pushn (by decide) _, by decide⟩
  · simp only [String.toList_append, String.toList_ofList, Printable.append_iff]
    exact ⟨⟨h.subset (List.take_subset ..), by decide⟩, h.subset (List.drop_subset ..)⟩

theorem printable_scientific (exponent : ℤ) : Printable (scientific digits exponent).toList := by
  have hfirst := h.subset (List.take_subset 1 digits.toList)
  have hothers : Printable (String.ofList (digits.toList.drop 1)).toList := by
    rw [String.toList_ofList]
    exact h.subset (List.drop_subset 1 digits.toList)
  unfold scientific
  dsimp only
  simp only [String.toList_append, Printable.append_iff, String.toList_ofList]
  refine ⟨⟨⟨⟨hfirst, ?_⟩, by decide⟩, by split <;> decide⟩, Printable.toString_int exponent⟩
  split
  · decide
  · rw [String.toList_append, Printable.append_iff]
    exact ⟨by decide, hothers⟩

omit h

theorem printable_unsigned (style : NumberStyle) (m : ℕ) (e : ℤ) :
    Printable (style.unsigned m e).toList := by
  unfold unsigned
  split
  · exact printable_point (by decide) style 1
  · have hdigits := Printable.toString_nat (Shortest.digits style.tie m e).digits
    dsimp only
    split
    · split
      · exact printable_point hdigits style _
      · exact printable_scientific hdigits _
    · exact printable_point hdigits style _

/-- A double is written without control characters, and so is what is no finite number. -/
theorem printable_write (x : Float) : Printable (json.write x).toList := by
  unfold write
  split
  · decide
  · decide
  · decide
  · rw [String.toList_append, Printable.append_iff]
    exact ⟨by split <;> decide, printable_unsigned json _ _⟩

end NumberStyle

namespace Json

theorem printable_hexDigit : ∀ n < 16, 32 ≤ (hexDigit n).toNat := by
  decide

/-- A mark is none of the control characters that it may stand for. -/
theorem printable_of_unescape? {m c : Char} (h : unescape? m = some c) : 32 ≤ m.toNat := by
  unfold unescape? at h
  split at h
  case h_9 => cases h
  all_goals decide

theorem printable_escape (c : Char) : Printable (escape c) := by
  rcases escape_cases c with ⟨m, hescape, -, hm⟩ | ⟨hcontrol, hescape⟩ | ⟨hescape, -, -, hplain⟩
  · rw [hescape]
    simp [printable_of_unescape? hm]
  · rw [hescape]
    simp [printable_hexDigit, show c.toNat / 16 < 16 by omega, show c.toNat % 16 < 16 by omega]
  · rw [hescape]
    simp
    omega

theorem printable_quote (s : String) : Printable (quote s) := by
  have hinside := Printable.flatMap fun c (_ : c ∈ s.toList) => printable_escape c
  simp [quote, hinside]

mutual

theorem printable_write (depth : ℕ) : ∀ v : Json, Printable (v.write .compact depth)
  | null => (by decide : Printable "null".toList)
  | bool true => (by decide : Printable "true".toList)
  | bool false => (by decide : Printable "false".toList)
  | integer n => Printable.toString_int n
  | real x => NumberStyle.printable_write x
  | string s => printable_quote s
  | array [] => (by decide : Printable ['[', ']'])
  | array (item :: items) => by
    simp [write, Style.gap, printable_write (depth + 1) item, printable_writeItems depth items]
  | object [] => (by decide : Printable ['{', '}'])
  | object ((key, value) :: members) => by
    simp [write, Style.gap, Style.colon, printable_quote key, printable_write (depth + 1) value,
      printable_writeMembers depth members]

theorem printable_writeItems (depth : ℕ) : ∀ items : List Json,
    Printable (writeItems .compact depth items)
  | [] => (by decide : Printable [']'])
  | item :: items => by
    simp [writeItems, Style.gap, printable_write (depth + 1) item,
      printable_writeItems depth items]

theorem printable_writeMembers (depth : ℕ) : ∀ members : List (String × Json),
    Printable (writeMembers .compact depth members)
  | [] => (by decide : Printable ['}'])
  | (key, value) :: members => by
    simp [writeMembers, Style.gap, Style.colon, printable_quote key,
      printable_write (depth + 1) value, printable_writeMembers depth members]

end

end Json

end PitFleet
