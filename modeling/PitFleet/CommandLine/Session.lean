import PitFleet.Backend.Link
import PitFleet.CommandLine.Invocation
import PitFleet.Config
import PitFleet.Simulation

/-!
# Sessions

What an invocation comes to. `Session.prepare` reads the configuration and whatever else is needed
and gives a job: a text to print, or a simulation to run. The configuration is read before all else,
so a faulty file stops every command.
-/

namespace PitFleet.CommandLine

inductive Target
  | console (format : OutputFormat)
  | backend (address : Address) (reconnectInterval : UInt32)
  deriving Repr

structure Plan where
  fleet : Fleet Float
  target : Target
  /-- The seconds that one tick moves the fleet on. -/
  step : Float
  ticks : Option Nat
  /-- In ticks per second. -/
  rate : Float

inductive Job
  | print (text : String)
  | run (plan : Plan)

def checkText (format : OutputFormat) (fleet : Fleet Float) (now : Int64) : String :=
  let alerts := fleet.alerts now
  match format with
  | .json => Document.writeIndented alerts ++ "\n"
  | .table =>
    "\nProximity Check\n===============\n"
      ++ "Vehicles: " ++ toString fleet.size ++ "\n"
      ++ "Alerts:   " ++ toString alerts.length ++ "\n\n"
      ++ Table.telemetry (fleet.telemetry 0) ++ Table.alerts alerts

namespace ConfigOptions

def changes (o : ConfigOptions) : Bool :=
  o.host.isSome || o.port.isSome || o.rate.isSome || o.format.isSome || o.scenario.isSome

def apply (o : ConfigOptions) (c : Config) : Config where
  tickRate := o.rate.getD c.tickRate
  step := c.step
  host := o.host.getD c.host
  port := o.port.getD c.port
  format := o.format.getD c.format
  reconnectInterval := c.reconnectInterval
  scenarioPath := o.scenario <|> c.scenarioPath

end ConfigOptions

namespace RunOptions

def plan (o : RunOptions) (c : Config) (format : OutputFormat) (fleet : Fleet Float) : Plan where
  fleet := fleet
  target :=
    if o.console then .console format
    else .backend ⟨o.host.getD c.host, o.port.getD c.port⟩ c.reconnectInterval
  step := c.step
  ticks := o.ticks.map UInt64.toNat
  rate := o.rate.getD c.tickRate

end RunOptions

namespace Session

variable {m : Type → Type} [Monad m] [Files m]

/-- Changes and shows the configuration; a reset sets all other options aside. -/
def configure (path : String) (o : ConfigOptions) : ExceptT Error m String := do
  if o.reset then
    Config.default.save path
    return "Configuration reset to defaults\n\n" ++ Config.default.text path ++ "\n"
  let c := o.apply (← Config.load path)
  if o.changes then c.save path
  let shown := o.shown || !o.changes
  return (if o.changes then "Configuration updated\n" else "")
    ++ (if shown then c.text path ++ "\n" else "")

/-- The job of an invocation, given the path of the configuration and the time. -/
def prepare (path : String) (now : Int64) (i : Invocation) : ExceptT Failure m Job := do
  let c ← ExceptT.adapt Failure.error (Config.load path)
  let format := i.format.getD c.format
  match i.command with
  | .run o => return .run (o.plan c format (← c.openFleet o.scenario))
  | .check scenario => return .print (checkText format (← c.openFleet scenario) now)
  | .config o => return .print (← ExceptT.adapt Failure.error (configure path o))

end Session

/-- A link under a weather that does not change takes all reports. -/
structure Outpost where
  link : Link
  weather : Weather

instance : Sink Outpost Float Empty where
  emit o r := ({ o with link := (o.link.emit o.weather r).1 }, .ok ())

/-- What a run prints that goes on without a pause, with a backend that behaves as the weather
says. -/
def Plan.output (p : Plan) (now : Int64) (weather : Weather) : Except Fault String := do
  match p.target with
  | .console format =>
    let s := Simulation.new p.fleet (Console.terminal format) p.step now
    let (s, _) ← s.run p.ticks p.rate false
    return s.sink.written
  | .backend address interval =>
    let link := Link.establish address interval weather.connects
    let s := Simulation.new p.fleet (Outpost.mk link weather) p.step now
    let _ ← s.run p.ticks p.rate false
    return ""

end PitFleet.CommandLine
