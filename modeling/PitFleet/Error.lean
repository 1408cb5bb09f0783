import PitFleet.Fault
import PitFleet.Fleet.Basic
import PitFleet.Json.Draft

/-!
# Errors

What can go wrong around a fleet: files, texts, settings, scenarios and the link to the backend.
-/

namespace PitFleet

inductive Error
  | file
  | json (cause : Json.Cause)
  | scenarioText
  | scenarioForm
  | configText
  | configSave
  | setup (e : SetupError)
  | fileNotFound (path : String)
  | transport (reason : String)
  deriving DecidableEq, Repr

def Error.message : Error → String
  | file => "IO error"
  | json _ => "JSON error"
  | scenarioText => "Scenario file error"
  | scenarioForm => "Scenario encode error"
  | configText => "Configuration error: Failed to parse configuration"
  | configSave => "Configuration error: Failed to save configuration"
  | setup e => "Scenario error: " ++ e.message
  | fileNotFound path => "File not found: " ++ path
  | transport reason => "Transport error: " ++ reason

/-- Why there is no result: an error that is told, or a fault. -/
inductive Failure
  | error (e : Error)
  | fault (f : Fault)
  deriving DecidableEq, Repr

end PitFleet
