import PitFleet.Proximity.Alert

/-!
# Reports

What one tick of a simulation produces, and the two formats in which reports are shown.
-/

namespace PitFleet

structure Report (α : Type) where
  /-- Counted from one. -/
  tick : Nat
  telemetry : List (TelemetryPacket α)
  alerts : List (CollisionAlert α)
  deriving Repr

inductive OutputFormat
  | table
  | json
  deriving DecidableEq, Repr

namespace OutputFormat

def name : OutputFormat → String
  | table => "table"
  | json => "json"

def ofName? : String → Option OutputFormat
  | "table" => some table
  | "json" => some json
  | _ => none

theorem ofName?_name (f : OutputFormat) : ofName? f.name = some f := by
  cases f <;> rfl

end OutputFormat

end PitFleet
