import PitFleet.Report.Console

/-!
# The link to the backend

One batch is sent per tick while the link is up. While it is down reports are dropped, and every so
many ticks a connection is tried. What the network does is an input: each tick says whether a
connection would come about and whether a batch would go out.
-/

namespace PitFleet

structure Address where
  host : String
  port : UInt16
  deriving DecidableEq, Repr

def Address.text (a : Address) : String :=
  a.host ++ ":" ++ toString a.port.toNat

/-- One end of a connection. -/
structure Connection where
  address : Address
  isUp : Bool
  deriving DecidableEq, Repr

inductive SendError
  | notConnected
  | failed
  deriving DecidableEq, Repr

def SendError.toError : SendError → Error
  | notConnected => .transport "not connected"
  | failed => .transport "send failed"

namespace Connection

def new (address : Address) : Connection :=
  ⟨address, false⟩

def connect (c : Connection) (succeeds : Bool) : Connection :=
  { c with isUp := c.isUp || succeeds }

def disconnect (c : Connection) : Connection :=
  { c with isUp := false }

/-- A payload that does not go out takes the connection down. -/
def send (c : Connection) (goesOut : Bool) : Connection × Except SendError Unit :=
  if c.isUp then
    if goesOut then (c, .ok ()) else (c.disconnect, .error .failed)
  else (c, .error .notConnected)

end Connection

/-- What the network would do in one tick. -/
structure Weather where
  connects : Bool
  delivers : Bool
  deriving DecidableEq, Repr

/-- What became of one report. -/
inductive Delivery
  | dropped
  /-- Dropped, and a connection was tried. -/
  | tried
  | sent (payload : String)
  /-- Sent in vain; the link is down again. -/
  | lost
  deriving DecidableEq, Repr

structure Link where
  connection : Connection
  /-- The ticks between two attempts to connect. -/
  interval : Nat
  /-- The ticks since the link went down or a connection was last tried. -/
  waited : Nat
  interval_pos : 0 < interval := by omega

namespace Link

/-- A link that has tried to connect once. -/
def establish (address : Address) (interval : UInt32) (connects : Bool) : Link where
  connection := (Connection.new address).connect connects
  interval := max interval.toNat 1
  waited := 0

/-- A tick while the link is down. -/
def wait (l : Link) (weather : Weather) : Link × Delivery :=
  if l.waited + 1 < l.interval then ({ l with waited := l.waited + 1 }, .dropped)
  else
    ({ l with connection := l.connection.disconnect.connect weather.connects, waited := 0 }, .tried)

def emit (l : Link) (weather : Weather) (r : Report Float) : Link × Delivery :=
  if l.connection.isUp then
    match l.connection.send weather.delivers with
    | (connection, .ok ()) => ({ l with connection }, .sent r.batch.encode)
    | (connection, .error _) => ({ l with connection }, .lost)
  else l.wait weather

end Link

end PitFleet
