import PitFleet.CommandLine.Setting
import PitFleet.Number.Reading
import PitFleet.Report.Basic

/-!
# Invocations

The commands of the program and their settings: `run` runs a simulation, `check` looks at the start
of a scenario once, `config` shows and changes the configuration. `Invocation.read` takes the
arguments of the program.
-/

namespace PitFleet.CommandLine

structure RunOptions where
  /-- Reports go to the console and not to the backend. -/
  console : Bool
  host : Option String
  port : Option UInt16
  ticks : Option UInt64
  rate : Option Float
  scenario : Option String
  deriving Repr

structure ConfigOptions where
  shown : Bool
  host : Option String
  port : Option UInt16
  rate : Option Float
  format : Option OutputFormat
  scenario : Option String
  reset : Bool
  deriving Repr

inductive Command
  | run (options : RunOptions)
  | check (scenario : Option String)
  | config (options : ConfigOptions)
  deriving Repr

structure Invocation where
  command : Command
  format : Option OutputFormat
  deriving Repr

/-! ### Values -/

def readPort? (text : String) : Option UInt16 :=
  match Reading.integer? text with
  | some n => if 0 ≤ n ∧ n < UInt16.size then some (.ofNat n.toNat) else none
  | none => none

/-- A count has no minus sign. -/
def readCount? (text : String) : Option UInt64 :=
  let cs := match text.toList with
    | '+' :: cs => cs
    | cs => cs
  match Reading.natural? cs with
  | some n => if n < UInt64.size then some (.ofNat n) else none
  | none => none

/-- A path is not empty. -/
def readPath? (text : String) : Option String :=
  if text.isEmpty then none else some text

/-! ### Settings -/

/-- A setting whose value is read and put into the options. -/
def valued {σ τ : Type} (long : String) (short : Option Char) (read? : String → Option τ)
    (put : τ → σ → σ) : Setting σ :=
  ⟨long, short, .value fun text options => (read? text).map (put · options)⟩

def flag {σ : Type} (long : String) (short : Option Char) (apply : σ → σ) : Setting σ :=
  ⟨long, short, .flag apply⟩

/-- The options of a command with the format, which every command takes. -/
abbrev WithFormat (σ : Type) := Option OutputFormat × σ

/-- The settings of every command. Being verbose changes nothing in the output. -/
def shared {σ : Type} : List (Setting (WithFormat σ)) := [
  valued "format" (some 'f') OutputFormat.ofName? fun format o => (some format, o.2),
  flag "verbose" (some 'v') id,
  ⟨"help", some 'h', .stop .help⟩]

def generalSettings : List (Setting (WithFormat Unit)) :=
  ⟨"version", some 'V', .stop .version⟩ :: shared

def runSettings : List (Setting (WithFormat RunOptions)) := [
  flag "local" none fun (f, o) => (f, { o with console := true }),
  valued "host" none some fun host (f, o) => (f, { o with host := some host }),
  valued "port" none readPort? fun port (f, o) => (f, { o with port := some port }),
  valued "ticks" (some 'n') readCount? fun ticks (f, o) => (f, { o with ticks := some ticks }),
  valued "rate" none Reading.float? fun rate (f, o) => (f, { o with rate := some rate }),
  valued "scenario" (some 's') readPath? fun path (f, o) => (f, { o with scenario := some path })]
    ++ shared

def checkSettings : List (Setting (WithFormat (Option String))) :=
  valued "scenario" (some 's') readPath? (fun path (f, _) => (f, some path)) :: shared

def configSettings : List (Setting (WithFormat ConfigOptions)) := [
  flag "show" none fun (f, o) => (f, { o with shown := true }),
  valued "set-host" none some fun host (f, o) => (f, { o with host := some host }),
  valued "set-port" none readPort? fun port (f, o) => (f, { o with port := some port }),
  valued "set-rate" none Reading.float? fun rate (f, o) => (f, { o with rate := some rate }),
  valued "set-output" none OutputFormat.ofName? fun format (f, o) =>
    (f, { o with format := some format }),
  valued "set-scenario" none readPath? fun path (f, o) => (f, { o with scenario := some path }),
  flag "reset" none fun (f, o) => (f, { o with reset := true })]
    ++ shared

/-! ### Reading arguments -/

/-- The options of a command from all the arguments after its name. -/
def readOptions {σ : Type} (settings : List (Setting (WithFormat σ))) (start : σ)
    (args : List String) : Except Stop (WithFormat σ) := do
  let (p, rest) ← (Progress.start (none, start)).takeAll settings args
  if !rest.isEmpty then .error .usage
  return (← p.settle).options

def commandNames : List String := ["run", "check", "config", "help"]

/-- Help is asked for by name, for the program or for one command. -/
def helpOn : List String → Stop
  | [] => .help
  | [name] => if name ∈ commandNames then .help else .usage
  | _ => .usage

def readCommand (name : String) (args : List String) : Except Stop (WithFormat Command) := do
  match name with
  | "run" =>
    let (format, o) ← readOptions runSettings ⟨false, none, none, none, none, none⟩ args
    return (format, .run o)
  | "check" =>
    let (format, scenario) ← readOptions checkSettings none args
    return (format, .check scenario)
  | "config" =>
    let (format, o) ← readOptions configSettings ⟨false, none, none, none, none, none, false⟩ args
    return (format, .config o)
  | "help" => .error (helpOn args)
  | _ => .error .usage

/-- The invocation that arguments write. What is pending before the command's name is settled
last; a format after the name goes before one in front of it. -/
def Invocation.read (args : List String) : Except Stop Invocation := do
  let (p, rest) ← (Progress.start (none, ())).takeAll generalSettings args
  match rest with
  | [] => .error .usage
  | name :: args =>
    let (format, command) ← readCommand name args
    let (general, _) := (← p.settle).options
    return ⟨command, format <|> general⟩

def versionText : String := "mineguard 0.1.0\n"

def usageText : String :=
  "Usage: mineguard [--format table|json] [--verbose] COMMAND\n\n"
    ++ "  run    [--local] [--host HOST] [--port PORT] [--ticks N] [--rate HZ] [--scenario FILE]\n"
    ++ "  check  [--scenario FILE]\n"
    ++ "  config [--show] [--set-host HOST] [--set-port PORT] [--set-rate HZ]\n"
    ++ "         [--set-output table|json] [--set-scenario FILE] [--reset]\n"

end PitFleet.CommandLine
