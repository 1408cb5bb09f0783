import PitFleet.Coded
import PitFleet.Heading

/-!
# How two vehicles meet

The geometry of an encounter, told by the angle between the two headings alone.
-/

namespace PitFleet

inductive Encounter
  /-- Head-on. -/
  | approach
  | crossing
  /-- In one direction. -/
  | tailgating
  | blindSpot
  deriving DecidableEq, Repr

namespace Encounter

def code : Encounter → Nat
  | approach => 0
  | crossing => 1
  | tailgating => 2
  | blindSpot => 3

def ofCode? : Nat → Option Encounter
  | 0 => some approach
  | 1 => some crossing
  | 2 => some tailgating
  | 3 => some blindSpot
  | _ => none

def label : Encounter → String
  | approach => "APPROACH"
  | crossing => "CROSSING"
  | tailgating => "TAILGATING"
  | blindSpot => "BLIND_SPOT"

instance : Coded Encounter where
  code := code
  ofCode? := ofCode?
  label := label
  size := 4
  ofCode?_code x := by cases x <;> rfl
  code_of_ofCode? {n x} h := by
    unfold ofCode? at h
    split at h <;> simp_all [code] <;> subst h <;> rfl
  isSome_ofCode?_iff {n} := by
    unfold ofCode?
    split <;> simp_all
    omega

def ofHeadings {α : Type} [Scalar α] (x y : α) : Encounter :=
  let d := Heading.difference x y
  if d < 30.0 then tailgating
  else if 150.0 < d then approach
  else if 60.0 < d ∧ d < 120.0 then crossing
  else blindSpot

end Encounter

end PitFleet
