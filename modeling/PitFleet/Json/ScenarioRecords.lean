import PitFleet.Json.Document
import PitFleet.Scenario

/-!
# Scenarios as records

The fields of a scenario, of its waypoints and of its vehicles, most of which may be left out.
-/

namespace PitFleet

open Document

instance : Document (Waypoint Float) where
  shape := .record [
    field String "name",
    field Float "latitude",
    field Float "longitude",
    fieldOr "altitude" (0.0 : Float)]
  toJson w := .object [
    ("name", toJson w.name),
    ("latitude", toJson w.latitude),
    ("longitude", toJson w.longitude),
    ("altitude", toJson w.altitude)]
  ofJson?
    | .object [(_, name), (_, latitude), (_, longitude), (_, altitude)] =>
      return ⟨← ofJson? name, ← ofJson? latitude, ← ofJson? longitude, ← ofJson? altitude⟩
    | _ => none

instance : Document (VehicleSetup Float) where
  shape := .record [
    field String "id",
    field String "category",
    field String "start",
    fieldOr "route" ([] : List String),
    fieldOr "waypoint_index" (0 : UInt64),
    optionalField String "cycle_state",
    fieldOr "target_speed" (0.0 : Float),
    fieldOr "speed" (0.0 : Float),
    optionalField Float "heading",
    fieldOr "wait_seconds" (0.0 : Float),
    optionalField Float "arrival_threshold",
    fieldOr "payload" (0.0 : Float),
    fieldOr "active" true]
  toJson s := .object [
    ("id", toJson s.id),
    ("category", toJson s.category),
    ("start", toJson s.start),
    ("route", toJson s.route),
    ("waypoint_index", toJson s.waypointIndex),
    ("cycle_state", toJson s.cycle),
    ("target_speed", toJson s.targetSpeed),
    ("speed", toJson s.speed),
    ("heading", toJson s.heading),
    ("wait_seconds", toJson s.waitSeconds),
    ("arrival_threshold", toJson s.arrivalThreshold),
    ("payload", toJson s.payload),
    ("active", toJson s.active)]
  ofJson?
    | .object [(_, id), (_, category), (_, start), (_, route), (_, waypointIndex), (_, cycle),
        (_, targetSpeed), (_, speed), (_, heading), (_, waitSeconds), (_, arrivalThreshold),
        (_, payload), (_, active)] =>
      return ⟨← ofJson? id, ← ofJson? category, ← ofJson? start, ← ofJson? route,
        ← ofJson? waypointIndex, ← ofJson? cycle, ← ofJson? targetSpeed, ← ofJson? speed,
        ← ofJson? heading, ← ofJson? waitSeconds, ← ofJson? arrivalThreshold, ← ofJson? payload,
        ← ofJson? active⟩
    | _ => none

instance : Document (Scenario Float) where
  shape := .record [
    optionalField String "name",
    fieldOr "waypoints" ([] : List (Waypoint Float)),
    fieldOr "vehicles" ([] : List (VehicleSetup Float))]
  toJson s := .object [
    ("name", toJson s.name),
    ("waypoints", toJson s.waypoints),
    ("vehicles", toJson s.vehicles)]
  ofJson?
    | .object [(_, name), (_, waypoints), (_, vehicles)] =>
      return ⟨← ofJson? name, ← ofJson? waypoints, ← ofJson? vehicles⟩
    | _ => none

end PitFleet
