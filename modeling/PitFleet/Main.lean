import PitFleet.Backend.Frame
import PitFleet.CommandLine.Session
import Std.Async.DNS
import Std.Async.Signal
import Std.Async.TCP
import Std.Time.DateTime

/-!
# The program

Carries out one invocation: it lets a session work on real files, prints what there is to print and
runs simulations at their pace, tick by tick, until they end or the program is asked to stop.
-/

namespace PitFleet.CommandLine

open Std.Async

def succeeds {τ : Type} (action : IO τ) : IO Bool := do
  try
    discard action
    return true
  catch _ => return false

instance : Files IO where
  present path := succeeds (IO.FS.realPath path)
  read path := do
    try
      return some (← IO.FS.readFile path)
    catch _ => return none
  makeParent path :=
    match Path.parent? path with
    | none | some "" => return true
    | some parent => succeeds (IO.FS.createDirAll parent)
  write path text := succeeds (IO.FS.writeFile path text)

/-- Milliseconds since the epoch. -/
def currentTime : IO Int64 := do
  return .ofInt (← Std.Time.Timestamp.now).toMillisecondsSinceUnixEpoch.toInt

/-- The directory of settings: the one that the environment names, or the usual one in the home
directory. -/
def settingsDirectory? : IO (Option String) := do
  match ← IO.getEnv "XDG_CONFIG_HOME" with
  | some path => if Path.isAbsolute path then return some path
  | none => pure ()
  return (← IO.getEnv "HOME").map (Path.join · ".config")

/-- Connects to the first of the addresses of a host that answers. -/
def dial (a : Address) : IO (Option TCP.Socket.Client) := do
  let addresses ←
    try (DNS.getAddrInfo a.host (toString a.port.toNat)).block
    catch _ => pure #[]
  for address in addresses do
    try
      let socket ← TCP.Socket.Client.mk
      let place := match address with
        | .v4 ip => Std.Net.SocketAddress.v4 ⟨ip, a.port⟩
        | .v6 ip => Std.Net.SocketAddress.v6 ⟨ip, a.port⟩
      (socket.connect place).block
      socket.noDelay
      return some socket
    catch _ => pure ()
  return none

def transmit (socket : Option TCP.Socket.Client) (payload : String) : IO Bool := do
  match socket, Frame.write? payload.toUTF8.toList with
  | some socket, some frame => succeeds (socket.send ⟨frame.toArray⟩).block
  | _, _ => return false

/-- A link and the socket that it is up on. -/
structure Station where
  link : Link
  socket : Option TCP.Socket.Client

def Station.establish (a : Address) (interval : UInt32) : IO Station := do
  let socket ← dial a
  return ⟨.establish a interval socket.isSome, socket⟩

/-- Asks the link what it would do with a report, does it and tells the link what came of it. -/
def Station.deliver (s : Station) (r : Report Float) : IO Station := do
  match (s.link.emit ⟨true, true⟩ r).2 with
  | .tried =>
    let socket ← dial s.link.connection.address
    return ⟨(s.link.emit ⟨socket.isSome, true⟩ r).1, socket⟩
  | .sent payload =>
    let delivers ← transmit s.socket payload
    return ⟨(s.link.emit ⟨true, delivers⟩ r).1, if delivers then s.socket else none⟩
  | _ => return ⟨(s.link.emit ⟨false, false⟩ r).1, s.socket⟩

inductive Outlet
  | console (console : Console)
  | backend (station : Station)

def Outlet.deliver (o : Outlet) (r : Report Float) : IO Outlet := do
  match o with
  | .console c =>
    let out ← IO.getStdout
    out.putStr (c.text r)
    out.flush
    return o
  | .backend station => return .backend (← station.deliver r)

/-- A sink that keeps nothing: the outlets take the reports as each tick returns them. -/
instance : Sink Unit Float Empty where
  emit _ _ := ((), .ok ())

/-- Runs tick by tick. A tick in progress is always finished. -/
partial def runTicks (s : Simulation Float Unit) (outlet : Outlet) (limit : Option Nat)
    (period : Nat) (stopped : IO Bool) : IO (Except Fault Unit) := do
  if (← stopped) || limit.any (· ≤ s.ticks) then return .ok ()
  let started ← IO.monoMsNow
  match ({ s with now := ← currentTime } : Simulation Float Unit).tick with
  | .error fault => return .error fault
  | .ok (s, .ok report) =>
    let outlet ← outlet.deliver report
    let elapsed := (← IO.monoMsNow) - started
    if elapsed < period then IO.sleep (period - elapsed).toUInt32
    runTicks s outlet limit period stopped

def Outlet.open : Target → IO Outlet
  | .console format => return .console (.terminal format)
  | .backend address interval => return .backend (← Station.establish address interval)

def runPlan (p : Plan) : IO (Except Fault Unit) := do
  let outlet ← Outlet.open p.target
  match Simulation.checkRate p.rate with
  | .error fault => return .error fault
  | .ok () =>
    let interrupted ← (← Signal.Waiter.mk .sigint false).wait
    let terminated ← (← Signal.Waiter.mk .sigterm false).wait
    let stopped := do return (← IO.hasFinished interrupted) || (← IO.hasFinished terminated)
    let period := if 0.0 < p.rate ∧ p.rate.isFinite then (1000.0 / p.rate).toUInt64.toNat else 0
    runTicks (.new p.fleet () p.step 0) outlet p.ticks period stopped

def failed (message : String) : IO UInt32 := do
  IO.eprintln ("Error: " ++ message)
  return 1

/-- A computation without a result ends the program. -/
def broken (fault : Fault) : IO UInt32 := do
  IO.eprintln ("fault: " ++ reprStr fault)
  return 101

def carryOut (settings : String) (i : Invocation) : IO UInt32 := do
  let job : ExceptT Failure IO Job := Session.prepare (Config.path settings) (← currentTime) i
  match ← job.run with
  | .error (.error e) => failed e.message
  | .error (.fault fault) => broken fault
  | .ok (.print text) =>
    IO.print text
    return 0
  | .ok (.run plan) =>
    match ← runPlan plan with
    | .ok () => return 0
    | .error fault => broken fault

end PitFleet.CommandLine

open PitFleet.CommandLine in
def main (args : List String) : IO UInt32 := do
  match Invocation.read args with
  | .error .usage =>
    IO.eprint usageText
    return 2
  | .error .help =>
    IO.print usageText
    return 0
  | .error .version =>
    IO.print versionText
    return 0
  | .ok i =>
    match ← settingsDirectory? with
    | some settings => carryOut settings i
    | none => failed "Configuration error: Configuration not found"
