import PitFleet.Scalar
import PitFleet.Scenario

/-!
# The built-in pit as a scenario

The built-in fleet and its map, written out as a scenario the way a scenario file gives them.
-/

namespace PitFleet

variable {α : Type} [Scalar α]

/-- A setup with nothing but what has to be given. -/
def VehicleSetup.bare (id category start : String) : VehicleSetup α where
  id := id
  category := category
  start := start
  route := []
  waypointIndex := 0
  cycle := none
  targetSpeed := 0.0
  speed := 0.0
  heading := none
  waitSeconds := 0.0
  arrivalThreshold := none
  payload := 0.0
  active := true

namespace Scenario

/-- The haul route of the built-in pit. -/
def haulNames : List String :=
  ["PIT_LOAD_1", "RAMP_BOT", "RAMP_MID", "RAMP_TOP", "ROAD_1", "ROAD_2", "DUMP_APPROACH",
    "DUMP_1"]

def pit : Scenario α where
  name := some "default pit"
  waypoints := [
    ⟨"PIT_LOAD_1", -20.12200, -43.95200, 820.0⟩,
    ⟨"PIT_LOAD_2", -20.12250, -43.95150, 820.0⟩,
    ⟨"RAMP_BOT", -20.12100, -43.95100, 840.0⟩,
    ⟨"RAMP_MID", -20.12000, -43.95000, 860.0⟩,
    ⟨"RAMP_TOP", -20.11900, -43.94900, 880.0⟩,
    ⟨"ROAD_1", -20.11800, -43.94800, 890.0⟩,
    ⟨"ROAD_2", -20.11700, -43.94700, 895.0⟩,
    ⟨"DUMP_APPROACH", -20.11600, -43.94600, 900.0⟩,
    ⟨"DUMP_1", -20.11550, -43.94550, 900.0⟩,
    ⟨"DUMP_2", -20.11500, -43.94600, 900.0⟩,
    ⟨"PATROL_1", -20.11950, -43.94950, 870.0⟩,
    ⟨"PATROL_2", -20.11750, -43.94750, 892.0⟩,
    ⟨"PATROL_3", -20.11600, -43.94650, 898.0⟩,
    ⟨"PATROL_4", -20.11850, -43.94850, 885.0⟩]
  vehicles := [
    { VehicleSetup.bare "HT-101" "haul_truck" "PIT_LOAD_1" with
      route := haulNames
      cycle := some "loading"
      waitSeconds := 120.0 },
    { VehicleSetup.bare "HT-102" "haul_truck" "ROAD_1" with
      route := haulNames
      waypointIndex := 4
      cycle := some "hauling"
      targetSpeed := 35.0
      payload := 220.0 },
    { VehicleSetup.bare "HT-103" "haul_truck" "DUMP_APPROACH" with
      route := haulNames
      waypointIndex := 6
      cycle := some "hauling"
      targetSpeed := 35.0
      payload := 220.0 },
    { VehicleSetup.bare "EX-201" "excavator" "PIT_LOAD_1" with
      route := ["PIT_LOAD_1"] },
    { VehicleSetup.bare "LV-301" "light_vehicle" "PATROL_1" with
      route := ["PATROL_1", "PATROL_2", "PATROL_3", "PATROL_4"]
      waypointIndex := 1
      cycle := some "hauling"
      targetSpeed := 45.0 }]

end Scenario

end PitFleet
