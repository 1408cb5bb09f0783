import PitFleet.Proximity.Approach
import PitFleet.Proximity.Encounter
import PitFleet.Proximity.Severity
import PitFleet.Proximity.Track

/-!
# Assessing a pair

Whether two vehicles are on course to breach the room that they need together. Parked pairs and
pairs far apart are no risk, a pair within its room is critical at once, and for all others the
closest approach decides.
-/

namespace PitFleet

structure Assessment (α : Type) where
  severity : Severity
  encounter : Encounter
  /-- In seconds; zero for a pair that is within its room already. -/
  timeToImpact : α
  /-- The least separation, in metres. -/
  distance : α
  deriving Repr

variable {α : Type} [Scalar α]

namespace Track

/-- The room that two vehicles need together. -/
def combinedRadius (a b : Track α) : α :=
  a.safetyRadius + b.safetyRadius

/-- The predicted distance at sample `k`. -/
def separation (a b : Track α) (k : Nat) : α :=
  (a.predict (Approach.sampleTime k)).distance (b.predict (Approach.sampleTime k))

def encounter (a b : Track α) : Encounter :=
  .ofHeadings a.heading b.heading

end Track

namespace Assessment

/-- Vehicles up to this speed in km/h count as parked. -/
def movingSpeed : α := 1.0

/-- Pairs further apart, in metres, are not looked at. -/
def cutoffDistance : α := 500.0

/-- What a closest approach below `radius` amounts to; one without a severity is no risk. -/
def ofApproach (radius : α) (encounter : Encounter) (p : Approach α) : Option (Assessment α) :=
  match p.sample with
  | none => none
  | some k =>
    if radius ≤ p.distance then none
    else
      let time := Approach.sampleTime k
      match Severity.ofTimeToImpact time with
      | .none => none
      | severity => some ⟨severity, encounter, time, p.distance⟩

/-- What the present says of a pair. -/
inductive Outlook (α : Type)
  | noRisk
  | breached (distance : α)
  /-- The future has to be looked at. -/
  | undecided (distance : α)

def outlook (a b : Track α) : Outlook α :=
  if ¬ movingSpeed < a.speed ∧ ¬ movingSpeed < b.speed then .noRisk
  else
    let distance := a.position.distance b.position
    if cutoffDistance < distance then .noRisk
    else if distance < a.combinedRadius b then .breached distance
    else .undecided distance

def assess (a b : Track α) : Option (Assessment α) :=
  match outlook a b with
  | .noRisk => none
  | .breached distance => some ⟨.critical, a.encounter b, 0.0, distance⟩
  | .undecided distance =>
    ofApproach (a.combinedRadius b) (a.encounter b) (.scan distance (a.separation b))

/-- How often the position of either vehicle is predicted. -/
def predictionCount (a b : Track α) : Nat :=
  match outlook a b with
  | .undecided distance => (Approach.scan distance (a.separation b)).taken
  | _ => 0

end Assessment

end PitFleet
