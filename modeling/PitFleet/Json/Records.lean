import PitFleet.Json.Document
import PitFleet.Proximity.Alert

/-!
# Records as JSON

The JSON forms of positions, measurements, packets, alerts, snapshots and specifications.
-/

namespace PitFleet

open Document

instance : Document (Position Float) where
  shape := .record [field Float "latitude", field Float "longitude", field Float "altitude"]
  toJson p := .object [
    ("latitude", toJson p.latitude),
    ("longitude", toJson p.longitude),
    ("altitude", toJson p.altitude)]
  ofJson?
    | .object [(_, latitude), (_, longitude), (_, altitude)] =>
      return ⟨← ofJson? latitude, ← ofJson? longitude, ← ofJson? altitude⟩
    | _ => none

instance : Document (Telemetry Float) where
  shape := .record [
    field Float "speed",
    field Float "heading",
    field Float "payload",
    field Float "fuel_level",
    field Float "engine_rpm"]
  toJson t := .object [
    ("speed", toJson t.speed),
    ("heading", toJson t.heading),
    ("payload", toJson t.payload),
    ("fuel_level", toJson t.fuelLevel),
    ("engine_rpm", toJson t.engineRpm)]
  ofJson?
    | .object [(_, speed), (_, heading), (_, payload), (_, fuelLevel), (_, engineRpm)] =>
      return ⟨← ofJson? speed, ← ofJson? heading, ← ofJson? payload, ← ofJson? fuelLevel,
        ← ofJson? engineRpm⟩
    | _ => none

namespace TelemetryPacket

def fields : List Json.Field := [
  field String "vehicle_id",
  field Int64 "timestamp",
  field Category "vehicle_type",
  field Cycle "cycle_state",
  field (Position Float) "position",
  field (Telemetry Float) "telemetry"]

def members (p : TelemetryPacket Float) : List (String × Json) := [
  ("vehicle_id", toJson p.vehicleId),
  ("timestamp", toJson p.timestamp),
  ("vehicle_type", toJson p.category),
  ("cycle_state", toJson p.cycle),
  ("position", toJson p.position),
  ("telemetry", toJson p.telemetry)]

def ofMembers? : List (String × Json) → Option (TelemetryPacket Float)
  | [(_, vehicleId), (_, timestamp), (_, category), (_, cycle), (_, position), (_, telemetry)] =>
    return ⟨← ofJson? vehicleId, ← ofJson? timestamp, ← ofJson? category, ← ofJson? cycle,
      ← ofJson? position, ← ofJson? telemetry⟩
  | _ => none

end TelemetryPacket

instance : Document (TelemetryPacket Float) where
  shape := .record TelemetryPacket.fields
  toJson p := .object p.members
  ofJson?
    | .object members => TelemetryPacket.ofMembers? members
    | _ => none

namespace CollisionAlert

def fields : List Json.Field := [
  field String "vehicle_id_1",
  field String "vehicle_id_2",
  field Severity "priority",
  field Encounter "alert_type",
  field Float "time_to_impact",
  field Float "distance",
  field Int64 "timestamp"]

def members (a : CollisionAlert Float) : List (String × Json) := [
  ("vehicle_id_1", toJson a.firstId),
  ("vehicle_id_2", toJson a.secondId),
  ("priority", toJson a.severity),
  ("alert_type", toJson a.encounter),
  ("time_to_impact", toJson a.timeToImpact),
  ("distance", toJson a.distance),
  ("timestamp", toJson a.timestamp)]

def ofMembers? : List (String × Json) → Option (CollisionAlert Float)
  | [(_, firstId), (_, secondId), (_, severity), (_, encounter), (_, time), (_, distance),
      (_, timestamp)] =>
    return ⟨← ofJson? firstId, ← ofJson? secondId, ← ofJson? severity, ← ofJson? encounter,
      ← ofJson? time, ← ofJson? distance, ← ofJson? timestamp⟩
  | _ => none

end CollisionAlert

instance : Document (CollisionAlert Float) where
  shape := .record CollisionAlert.fields
  toJson a := .object a.members
  ofJson?
    | .object members => CollisionAlert.ofMembers? members
    | _ => none

instance : Document (Snapshot Float) where
  shape := .record [
    field String "id",
    field Category "category",
    field (Position Float) "position",
    field Float "speed",
    field Float "heading",
    field Float "payload",
    field Float "fuel_level",
    field Bool "active"]
  toJson s := .object [
    ("id", toJson s.id),
    ("category", toJson s.category),
    ("position", toJson s.position),
    ("speed", toJson s.speed),
    ("heading", toJson s.heading),
    ("payload", toJson s.payload),
    ("fuel_level", toJson s.fuelLevel),
    ("active", toJson s.active)]
  ofJson?
    | .object [(_, id), (_, category), (_, position), (_, speed), (_, heading), (_, payload),
        (_, fuelLevel), (_, active)] =>
      return ⟨← ofJson? id, ← ofJson? category, ← ofJson? position, ← ofJson? speed,
        ← ofJson? heading, ← ofJson? payload, ← ofJson? fuelLevel, ← ofJson? active⟩
    | _ => none

instance : Document (Spec Float) where
  shape := .record [
    field Float "max_speed",
    field Float "max_payload",
    field Float "fuel_capacity",
    field Float "fuel_burn_rate",
    field Float "safety_radius",
    field Float "length",
    field Float "width"]
  toJson s := .object [
    ("max_speed", toJson s.maxSpeed),
    ("max_payload", toJson s.maxPayload),
    ("fuel_capacity", toJson s.fuelCapacity),
    ("fuel_burn_rate", toJson s.fuelBurnRate),
    ("safety_radius", toJson s.safetyRadius),
    ("length", toJson s.length),
    ("width", toJson s.width)]
  ofJson?
    | .object [(_, maxSpeed), (_, maxPayload), (_, fuelCapacity), (_, fuelBurnRate),
        (_, safetyRadius), (_, length), (_, width)] =>
      return ⟨← ofJson? maxSpeed, ← ofJson? maxPayload, ← ofJson? fuelCapacity,
        ← ofJson? fuelBurnRate, ← ofJson? safetyRadius, ← ofJson? length, ← ofJson? width⟩
    | _ => none

end PitFleet
