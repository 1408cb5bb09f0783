import PitFleet.Error
import PitFleet.Json.Records

/-!
# Batches

What one tick sends: the packets of all vehicles and all alerts, as one line of JSON in which every
record names its kind. A text that is a batch but holds a record in the wrong list is refused for
that reason; the telemetry list is looked at first.
-/

namespace PitFleet

open Document

structure Batch where
  telemetry : List (TelemetryPacket Float)
  alerts : List (CollisionAlert Float)
  deriving Repr

/-- The two lists alone, without the kinds of their records. -/
instance : Document Batch where
  shape := .record [
    field (List (TelemetryPacket Float)) "telemetry",
    field (List (CollisionAlert Float)) "alerts"]
  toJson b := .object [("telemetry", toJson b.telemetry), ("alerts", toJson b.alerts)]
  ofJson?
    | .object [(_, telemetry), (_, alerts)] =>
      return ⟨← ofJson? telemetry, ← ofJson? alerts⟩
    | _ => none

inductive BatchRecord
  | telemetry (packet : TelemetryPacket Float)
  | alert (alert : CollisionAlert Float)

def kindKey : String := "type"

instance : Document BatchRecord where
  shape := .tagged kindKey [
    ("telemetry", TelemetryPacket.fields),
    ("alert", CollisionAlert.fields)]
  toJson
    | .telemetry p => .object ((kindKey, .string "telemetry") :: p.members)
    | .alert a => .object ((kindKey, .string "alert") :: a.members)
  ofJson?
    | .object ((_, .string kind) :: members) =>
      if kind = "telemetry" then .telemetry <$> TelemetryPacket.ofMembers? members
      else .alert <$> CollisionAlert.ofMembers? members
    | _ => none

/-- A batch as it is sent: any records in either list. -/
structure BatchMessage where
  telemetry : List BatchRecord
  alerts : List BatchRecord

instance : Document BatchMessage where
  shape := .tagged kindKey [
    ("batch", [field (List BatchRecord) "telemetry", field (List BatchRecord) "alerts"])]
  toJson m := .object [
    (kindKey, .string "batch"),
    ("telemetry", toJson m.telemetry),
    ("alerts", toJson m.alerts)]
  ofJson?
    | .object [_, (_, telemetry), (_, alerts)] =>
      return ⟨← ofJson? telemetry, ← ofJson? alerts⟩
    | _ => none

inductive BatchError
  | unreadable (cause : Json.Cause)
  | alertAmongTelemetry
  | telemetryAmongAlerts
  deriving DecidableEq, Repr

def BatchError.toError : BatchError → Error
  | unreadable cause => .json cause
  | alertAmongTelemetry => .transport "alert record in telemetry list"
  | telemetryAmongAlerts => .transport "telemetry record in alert list"

namespace Batch

def message (b : Batch) : BatchMessage :=
  ⟨b.telemetry.map .telemetry, b.alerts.map .alert⟩

def encode (b : Batch) : String :=
  write b.message

def onlyTelemetry : List BatchRecord → Except BatchError (List (TelemetryPacket Float))
  | [] => .ok []
  | .telemetry p :: rest => return p :: (← onlyTelemetry rest)
  | .alert _ :: _ => .error .alertAmongTelemetry

def onlyAlerts : List BatchRecord → Except BatchError (List (CollisionAlert Float))
  | [] => .ok []
  | .alert a :: rest => return a :: (← onlyAlerts rest)
  | .telemetry _ :: _ => .error .telemetryAmongAlerts

/-- The batch that a message stands for. -/
def ofMessage (m : BatchMessage) : Except BatchError Batch := do
  let telemetry ← onlyTelemetry m.telemetry
  return ⟨telemetry, ← onlyAlerts m.alerts⟩

def decode (text : String) : Except BatchError Batch := do
  match read (τ := BatchMessage) text with
  | .ok m => ofMessage m
  | .error cause => .error (.unreadable cause)

end Batch

end PitFleet
