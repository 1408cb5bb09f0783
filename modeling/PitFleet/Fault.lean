/-!
# Faults

The few ways in which a computation has no result at all. A fault is never an answer about the
fleet: whoever meets one gives up the whole computation.
-/

namespace PitFleet

inductive Fault
  /-- Bounds that are out of order or not numbers admit no value between them. -/
  | emptyRange
  /-- A tick rate so small that the time between two ticks cannot be expressed. -/
  | endlessPeriod
  deriving DecidableEq, Repr

end PitFleet
