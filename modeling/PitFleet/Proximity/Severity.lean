import PitFleet.Coded
import PitFleet.Scalar

/-!
# Severity of an alert

How urgent a predicted breach is, told by the time left until the closest approach.
-/

namespace PitFleet

inductive Severity
  | none
  | low
  | medium
  | high
  | critical
  deriving DecidableEq, Repr

namespace Severity

def code : Severity → Nat
  | none => 0
  | low => 1
  | medium => 2
  | high => 3
  | critical => 4

def ofCode? : Nat → Option Severity
  | 0 => some none
  | 1 => some low
  | 2 => some medium
  | 3 => some high
  | 4 => some critical
  | _ => Option.none

def label : Severity → String
  | none => "NONE"
  | low => "LOW"
  | medium => "MEDIUM"
  | high => "HIGH"
  | critical => "CRITICAL"

instance : Coded Severity where
  code := code
  ofCode? := ofCode?
  label := label
  size := 5
  ofCode?_code x := by cases x <;> rfl
  code_of_ofCode? {n x} h := by
    unfold ofCode? at h
    split at h <;> simp_all [code] <;> subst h <;> rfl
  isSome_ofCode?_iff {n} := by
    unfold ofCode?
    split <;> simp_all
    omega

/-- The codes rise with the urgency. -/
instance : LE Severity := ⟨fun s t => s.code ≤ t.code⟩

instance (s t : Severity) : Decidable (s ≤ t) :=
  inferInstanceAs (Decidable (s.code ≤ t.code))

instance : Ord Severity := ⟨fun s t => compare s.code t.code⟩

/-- The severity of a closest approach `t` seconds from now; a `t` that is no number has none. -/
def ofTimeToImpact {α : Type} [Scalar α] (t : α) : Severity :=
  if t < 3.0 then critical
  else if t < 5.0 then high
  else if t < 10.0 then medium
  else if t < 15.0 then low
  else none

end Severity

end PitFleet
