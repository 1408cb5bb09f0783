/-!
# Scenarios

The description of a fleet before it is checked: waypoints, vehicles and where they start.
-/

namespace PitFleet

structure Waypoint (α : Type) where
  name : String
  latitude : α
  longitude : α
  altitude : α
  deriving BEq, Repr

/-- One vehicle of a scenario. Tags and names are not checked yet. -/
structure VehicleSetup (α : Type) where
  id : String
  category : String
  start : String
  /-- Empty for a vehicle that stays where it is. -/
  route : List String
  waypointIndex : UInt64
  cycle : Option String
  targetSpeed : α
  speed : α
  /-- Without one the vehicle faces its current waypoint. -/
  heading : Option α
  waitSeconds : α
  /-- Without one the category decides. -/
  arrivalThreshold : Option α
  payload : α
  active : Bool
  deriving BEq, Repr

structure Scenario (α : Type) where
  name : Option String
  /-- Empty for the built-in pit. -/
  waypoints : List (Waypoint α)
  vehicles : List (VehicleSetup α)
  deriving BEq, Repr

end PitFleet
