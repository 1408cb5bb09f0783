/-!
# Coded enumerations

Categories, cycle states, severities and encounters travel as small numbers and are shown by a
label. Both come from one class, with the laws that tie a code to its value.
-/

namespace PitFleet

/-- An enumeration whose values are numbered from zero without a gap. -/
class Coded (τ : Type) where
  code : τ → Nat
  ofCode? : Nat → Option τ
  label : τ → String
  size : Nat
  ofCode?_code (x : τ) : ofCode? (code x) = some x
  code_of_ofCode? {n : Nat} {x : τ} : ofCode? n = some x → code x = n
  isSome_ofCode?_iff {n : Nat} : (ofCode? n).isSome = true ↔ n < size

/-- A code that stands for nothing. -/
structure UnknownCode where
  code : Nat
  deriving DecidableEq, Repr

def UnknownCode.message (e : UnknownCode) : String :=
  "unknown code " ++ toString e.code

namespace Coded

variable {τ : Type} [Coded τ]

def read (n : Nat) : Except UnknownCode τ :=
  match ofCode? n with
  | some x => .ok x
  | none => .error ⟨n⟩

theorem code_injective {x y : τ} (h : code x = code y) : x = y := by
  have := ofCode?_code x
  rw [h, ofCode?_code y] at this
  exact (Option.some.inj this).symm

theorem code_lt_size (x : τ) : code x < size τ :=
  isSome_ofCode?_iff.1 (by rw [ofCode?_code x]; rfl)

end Coded

end PitFleet
