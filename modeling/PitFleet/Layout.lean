import PitFleet.Position
import PitFleet.Registry

/-!
# The layout of a mine

Named waypoints and the routes that lead over them, with those of the built-in pit: a loading
floor, an exit ramp, a haul road, a dump and a patrol loop.
-/

namespace PitFleet

abbrev Layout (α : Type) := Registry (Position α)

/-- Names of waypoints in the order in which they are driven to. -/
structure Route where
  waypoints : List String
  deriving DecidableEq, Repr

namespace Route

def reversed (r : Route) : Route :=
  ⟨r.waypoints.reverse⟩

def length (r : Route) : Nat :=
  r.waypoints.length

def isEmpty (r : Route) : Bool :=
  r.waypoints.isEmpty

def get? (r : Route) (index : Nat) : Option String :=
  r.waypoints[index]?

/-- From the loading floor to the dump. -/
def haul : Route :=
  ⟨["PIT_LOAD_1", "RAMP_BOT", "RAMP_MID", "RAMP_TOP", "ROAD_1", "ROAD_2", "DUMP_APPROACH",
    "DUMP_1"]⟩

def patrol : Route :=
  ⟨["PATROL_1", "PATROL_2", "PATROL_3", "PATROL_4"]⟩

end Route

def Layout.pit {α : Type} [Scalar α] : Layout α := .ofList [
  ("PIT_LOAD_1", ⟨-20.12200, -43.95200, 820.0⟩),
  ("PIT_LOAD_2", ⟨-20.12250, -43.95150, 820.0⟩),
  ("RAMP_BOT", ⟨-20.12100, -43.95100, 840.0⟩),
  ("RAMP_MID", ⟨-20.12000, -43.95000, 860.0⟩),
  ("RAMP_TOP", ⟨-20.11900, -43.94900, 880.0⟩),
  ("ROAD_1", ⟨-20.11800, -43.94800, 890.0⟩),
  ("ROAD_2", ⟨-20.11700, -43.94700, 895.0⟩),
  ("DUMP_APPROACH", ⟨-20.11600, -43.94600, 900.0⟩),
  ("DUMP_1", ⟨-20.11550, -43.94550, 900.0⟩),
  ("DUMP_2", ⟨-20.11500, -43.94600, 900.0⟩),
  ("PATROL_1", ⟨-20.11950, -43.94950, 870.0⟩),
  ("PATROL_2", ⟨-20.11750, -43.94750, 892.0⟩),
  ("PATROL_3", ⟨-20.11600, -43.94650, 898.0⟩),
  ("PATROL_4", ⟨-20.11850, -43.94850, 885.0⟩)]

end PitFleet
