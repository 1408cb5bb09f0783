import PitFleet.Coded

/-!
# The haul cycle

A haul truck loads, hauls, dumps and returns; all else idles or uses one of these states to say
that it is on its way.
-/

namespace PitFleet

inductive Cycle
  | idle
  | loading
  | hauling
  | dumping
  | returning
  deriving DecidableEq, Repr

namespace Cycle

def code : Cycle → Nat
  | idle => 0
  | loading => 1
  | hauling => 2
  | dumping => 3
  | returning => 4

def ofCode? : Nat → Option Cycle
  | 0 => some idle
  | 1 => some loading
  | 2 => some hauling
  | 3 => some dumping
  | 4 => some returning
  | _ => none

def label : Cycle → String
  | idle => "IDLE"
  | loading => "LOADING"
  | hauling => "HAULING"
  | dumping => "DUMPING"
  | returning => "RETURNING"

instance : Coded Cycle where
  code := code
  ofCode? := ofCode?
  label := label
  size := 5
  ofCode?_code x := by cases x <;> rfl
  code_of_ofCode? {n x} h := by
    unfold ofCode? at h
    split at h <;> simp_all [code] <;> subst h <;> rfl
  isSome_ofCode?_iff {n} := by
    unfold ofCode?
    split <;> simp_all
    omega

/-- Tags are read without regard to the case of ASCII letters. -/
def ofTag? (tag : String) : Option Cycle :=
  match String.ofList (tag.toList.map Char.toLower) with
  | "idle" => some idle
  | "loading" => some loading
  | "hauling" => some hauling
  | "dumping" => some dumping
  | "returning" => some returning
  | _ => none

end Cycle

end PitFleet
