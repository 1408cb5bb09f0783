import PitFleet.Report.Basic

/-!
# Sinks

Whoever takes the reports of a simulation, in the order of the ticks.
-/

namespace PitFleet

/-- A sink may refuse a report. -/
class Sink (σ : Type) (α ε : outParam Type) where
  emit : σ → Report α → σ × Except ε Unit

/-- A sink that keeps all reports, the latest first. -/
structure Memory (α : Type) where
  latestFirst : List (Report α)

def Memory.empty {α : Type} : Memory α := ⟨[]⟩

/-- The reports in the order in which they came. -/
def Memory.reports {α : Type} (m : Memory α) : List (Report α) :=
  m.latestFirst.reverse

instance {α : Type} : Sink (Memory α) α Empty where
  emit m r := (⟨r :: m.latestFirst⟩, .ok ())

end PitFleet
