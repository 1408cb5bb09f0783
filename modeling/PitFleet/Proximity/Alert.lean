import PitFleet.Proximity.Assessment

/-!
# Collision alerts

All pairs of active vehicles, each looked at once, in the order of the fleet.
-/

namespace PitFleet

structure CollisionAlert (α : Type) where
  /-- The vehicle that comes first in the fleet. -/
  firstId : String
  secondId : String
  severity : Severity
  encounter : Encounter
  /-- In seconds. -/
  timeToImpact : α
  /-- In metres. -/
  distance : α
  /-- Milliseconds since the epoch. -/
  timestamp : Int64
  deriving Repr

/-- Every element with every later one, in the order of the first, then of the second. -/
def orderedPairs {τ : Type} : List τ → List (τ × τ)
  | [] => []
  | x :: xs => xs.map (x, ·) ++ orderedPairs xs

namespace CollisionAlert

variable {α : Type} [Scalar α]

def ofPair? (now : Int64) (a b : Track α) : Option (CollisionAlert α) :=
  if a.active = true ∧ b.active = true then
    (Assessment.assess a b).map fun r =>
      ⟨a.id, b.id, r.severity, r.encounter, r.timeToImpact, r.distance, now⟩
  else none

def evaluate (now : Int64) (tracks : List (Track α)) : List (CollisionAlert α) :=
  (orderedPairs tracks).filterMap fun (a, b) => ofPair? now a b

end CollisionAlert

end PitFleet
