import PitFleet.Category
import PitFleet.Cycle
import PitFleet.Position

/-!
# Telemetry

What a vehicle measures and the record that it sends of it.
-/

namespace PitFleet

structure Telemetry (α : Type) where
  /-- In km/h. -/
  speed : α
  heading : α
  /-- In tonnes. -/
  payload : α
  /-- In percent. -/
  fuelLevel : α
  engineRpm : α
  deriving Repr

/-- A vehicle at rest with a full tank. -/
def Telemetry.atRest {α : Type} [Scalar α] : Telemetry α :=
  ⟨0.0, 0.0, 0.0, 100.0, 800.0⟩

structure TelemetryPacket (α : Type) where
  vehicleId : String
  /-- Milliseconds since the epoch. -/
  timestamp : Int64
  category : Category
  cycle : Cycle
  position : Position α
  telemetry : Telemetry α
  deriving Repr

end PitFleet
