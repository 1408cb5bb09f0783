import PitFleet.Backend.Batch
import PitFleet.Report.Sink
import PitFleet.Report.Table

/-!
# The console

Reports written one after the other: as tables, each on a cleared screen if asked for, or as one
line of JSON each.
-/

namespace PitFleet

def Report.batch (r : Report Float) : Batch :=
  ⟨r.telemetry, r.alerts⟩

structure Console where
  format : OutputFormat
  clearsScreen : Bool
  written : String
  deriving Repr

namespace Console

def new (format : OutputFormat) : Console :=
  ⟨format, false, ""⟩

/-- The console of a terminal, on which tables take turns. -/
def terminal (format : OutputFormat) : Console :=
  ⟨format, decide (format = .table), ""⟩

/-- Clears a terminal and moves to its first place. -/
def clearScreen : String := "\x1b[2J\x1b[H"

def text (c : Console) (r : Report Float) : String :=
  match c.format with
  | .json => r.batch.encode ++ "\n"
  | .table => (if c.clearsScreen then clearScreen else "") ++ Table.report r

def emit (c : Console) (r : Report Float) : Console :=
  { c with written := c.written ++ c.text r }

end Console

instance : Sink Console Float Empty where
  emit c r := (c.emit r, .ok ())

end PitFleet
