import PitFleet.Error
import PitFleet.Files
import PitFleet.Fleet.Setup
import PitFleet.Json.ScenarioRecords
import PitFleet.Toml.Document

/-!
# Scenario files

Scenarios are kept as TOML. A scenario whose numbers do not fit is refused before its file is
touched.
-/

namespace PitFleet.Scenario

variable {m : Type → Type} [Monad m] [Files m]

def load (path : String) : ExceptT Error m (Scenario Float) := do
  if !(← Files.present path) then throw (.fileNotFound path)
  let some text ← Files.read path | throw .file
  let some scenario := Document.readToml? text | throw .scenarioText
  return scenario

def save (path : String) (s : Scenario Float) : ExceptT Error m Unit := do
  if !(← Files.makeParent path) then throw .file
  let some text := Document.writeToml? s | throw .scenarioForm
  if !(← Files.write path text) then throw .file

def fleet (s : Scenario Float) : Except Failure (Fleet Float) :=
  match (Fleet.ofScenario s).run with
  | .ok (.ok f) => .ok f
  | .ok (.error e) => .error (.error (.setup e))
  | .error f => .error (.fault f)

end PitFleet.Scenario
