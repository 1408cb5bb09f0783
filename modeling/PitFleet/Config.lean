import PitFleet.Error
import PitFleet.Files
import PitFleet.Json.Document
import PitFleet.Number.Style
import PitFleet.Report.Basic
import PitFleet.Scenario.Store

/-!
# Configuration

The settings that last from one run to the next. They are kept as a JSON file; where there is no
file, and for every setting that a file leaves out, the defaults hold.
-/

namespace PitFleet

open Document

structure Config where
  /-- In ticks per second; zero for as many as there can be. -/
  tickRate : Float
  /-- The seconds that one tick moves the fleet on. -/
  step : Float
  host : String
  port : UInt16
  format : OutputFormat
  /-- The ticks between two attempts to reach the backend. -/
  reconnectInterval : UInt32
  /-- The built-in pit if none is given. -/
  scenarioPath : Option String
  deriving BEq, Repr

instance : Document OutputFormat where
  shape := .choice [OutputFormat.table.name, OutputFormat.json.name]
  toJson f := .string f.name
  ofJson?
    | .string s => OutputFormat.ofName? s
    | _ => none

namespace Config

def default : Config where
  tickRate := 1.0
  step := 1.0
  host := "localhost"
  port := 5000
  format := .table
  reconnectInterval := 5
  scenarioPath := none

instance : Document Config where
  shape := .record [
    fieldOr "tick_rate_hz" default.tickRate,
    fieldOr "delta_time" default.step,
    fieldOr "host" default.host,
    fieldOr "port" default.port,
    fieldOr "output_format" default.format,
    fieldOr "reconnect_interval_ticks" default.reconnectInterval,
    optionalField String "scenario_path"]
  toJson c := .object [
    ("tick_rate_hz", toJson c.tickRate),
    ("delta_time", toJson c.step),
    ("host", toJson c.host),
    ("port", toJson c.port),
    ("output_format", toJson c.format),
    ("reconnect_interval_ticks", toJson c.reconnectInterval),
    ("scenario_path", toJson c.scenarioPath)]
  ofJson?
    | .object [(_, tickRate), (_, step), (_, host), (_, port), (_, format), (_, interval),
        (_, scenarioPath)] =>
      return ⟨← ofJson? tickRate, ← ofJson? step, ← ofJson? host, ← ofJson? port,
        ← ofJson? format, ← ofJson? interval, ← ofJson? scenarioPath⟩
    | _ => none

/-- The file in a directory of settings. -/
def path (settings : String) : String :=
  Path.join (Path.join settings "mineguard") "config.json"

section Storage

variable {m : Type → Type} [Monad m] [Files m]

def load (path : String) : ExceptT Error m Config := do
  if !(← Files.present path) then return default
  let some text ← Files.read path | throw .file
  match Document.read text with
  | .ok c => return c
  | .error _ => throw .configText

def save (path : String) (c : Config) : ExceptT Error m Unit := do
  if !(← Files.makeParent path) then throw .file
  if !(← Files.write path (writeIndented c)) then throw .configSave

/-- The fleet of the scenario at a path, or else at the configured one, or else the built-in
fleet. -/
def openFleet (c : Config) (path : Option String) : ExceptT Failure m (Fleet Float) := do
  match path <|> c.scenarioPath with
  | some path =>
    let s ← ExceptT.adapt Failure.error (Scenario.load path)
    liftExcept s.fleet
  | none => return .pit

end Storage

def text (c : Config) (path : String) : String :=
  "MineGuard Configuration\n"
    ++ "=======================\n"
    ++ "\n"
    ++ "Tick rate:          " ++ NumberStyle.plain.write c.tickRate ++ " Hz\n"
    ++ "Delta time:         " ++ NumberStyle.plain.write c.step ++ " s\n"
    ++ "Backend:            " ++ c.host ++ ":" ++ toString c.port.toNat ++ "\n"
    ++ "Output format:      " ++ c.format.name ++ "\n"
    ++ "Reconnect interval: " ++ toString c.reconnectInterval.toNat ++ " ticks\n"
    ++ "Scenario:           " ++ c.scenarioPath.getD "(built-in pit)" ++ "\n"
    ++ "\n"
    ++ "Config file:        " ++ path ++ "\n"

end Config

end PitFleet
