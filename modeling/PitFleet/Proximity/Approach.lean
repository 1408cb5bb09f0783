import PitFleet.Scalar

/-!
# The closest approach

Two tracks are compared at half seconds for a quarter of a minute. `Approach.scan` walks the
sampled separations and keeps the least one and the first sample that attains it. A pair that has
drifted apart by half of its first separation after three seconds is not looked at any longer.
-/

namespace PitFleet

/-- The least separation found so far. -/
structure Approach (α : Type) where
  distance : α
  /-- The sample that attains it; none while it is the separation of now. -/
  sample : Option Nat
  /-- How many samples were taken. -/
  taken : Nat
  deriving Repr

namespace Approach

variable {α : Type} [Scalar α]

def sampleCount : Nat := 30

/-- Samples up to this one never end the walk. -/
def lastKeptSample : Nat := 6

/-- A separation this many times the first one counts as drifting apart. -/
def divergence : α := 1.5

/-- The time in seconds of sample `k`, which is `k / 2`. -/
def sampleTime (k : Nat) : α :=
  OfScientific.ofScientific (5 * k) true 1

/-- Takes the separation of sample `k` into account. -/
def take (a : Approach α) (k : Nat) (separation : α) : Approach α :=
  if separation < a.distance then ⟨separation, some k, a.taken + 1⟩
  else { a with taken := a.taken + 1 }

/-- The walk over `n` samples from sample `k` on. -/
def walk (first : α) (separation : Nat → α) : Nat → Nat → Approach α → Approach α
  | 0, _, a => a
  | n + 1, k, a =>
    let d := separation k
    let a := a.take k d
    if lastKeptSample < k ∧ first * divergence < d then a
    else walk first separation n (k + 1) a

def scan (first : α) (separation : Nat → α) : Approach α :=
  walk first separation sampleCount 1 ⟨first, none, 0⟩

end Approach

end PitFleet
