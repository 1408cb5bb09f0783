import PitFleet.Number.Style
import PitFleet.Report.Basic

/-!
# Tables

Reports for readers: two lines for every vehicle and one for every alert, in columns.
-/

namespace PitFleet.Table

def packetLines (p : TelemetryPacket Float) : String :=
  "  " ++ padRight 8 p.vehicleId
    ++ " [" ++ padRight 12 p.category.label ++ "] " ++ padRight 10 p.cycle.label
    ++ " | Lat: " ++ fixed 10 6 p.position.latitude
    ++ "  Lon: " ++ fixed 11 6 p.position.longitude
    ++ "  Alt: " ++ fixed 6 1 p.position.altitude ++ "m\n"
    ++ "  " ++ padRight 8 ""
    ++ " Speed: " ++ fixed 5 1 p.telemetry.speed
    ++ " km/h  Heading: " ++ fixed 5 1 p.telemetry.heading
    ++ "°  Fuel: " ++ fixed 5 1 p.telemetry.fuelLevel
    ++ "%  Payload: " ++ fixed 5 1 p.telemetry.payload
    ++ "t  RPM: " ++ fixed 0 0 p.telemetry.engineRpm ++ "\n\n"

def telemetry (packets : List (TelemetryPacket Float)) : String :=
  String.join (packets.map packetLines)

def alertLine (a : CollisionAlert Float) : String :=
  "  " ++ padRight 8 a.firstId ++ " <-> " ++ padRight 8 a.secondId
    ++ "  " ++ padRight 10 a.severity.label ++ "  " ++ padRight 12 a.encounter.label
    ++ "  TTI: " ++ fixed 4 1 a.timeToImpact
    ++ "s  Dist: " ++ fixed 5 1 a.distance ++ "m\n"

def alerts : List (CollisionAlert Float) → String
  | [] => "  [ALERTS] No active alerts\n"
  | as => "  COLLISION ALERTS\n  ----------------\n" ++ String.join (as.map alertLine)

def report (r : Report Float) : String :=
  "MineGuard - tick " ++ toString r.tick ++ "\n\n" ++ telemetry r.telemetry ++ alerts r.alerts

end PitFleet.Table
