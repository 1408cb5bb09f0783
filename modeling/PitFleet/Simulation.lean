import PitFleet.Fleet.Basic
import PitFleet.Report.Sink

/-!
# Simulations

A simulation moves a fleet on tick by tick and hands a report of every tick to its sink. Within a
tick the fleet moves first; packets and alerts are taken of where it then stands.
-/

namespace PitFleet

structure Simulation (α σ : Type) where
  fleet : Fleet α
  sink : σ
  /-- The seconds that one tick moves the fleet on. -/
  step : α
  /-- The time of all packets and alerts. -/
  now : Int64
  ticks : Nat

namespace Simulation

variable {α σ ε : Type} [Scalar α] [Sink σ α ε]

def new (fleet : Fleet α) (sink : σ) (step : α) (now : Int64) : Simulation α σ :=
  ⟨fleet, sink, step, now, 0⟩

def tick (s : Simulation α σ) : Except Fault (Simulation α σ × Except ε (Report α)) := do
  let fleet ← s.fleet.update s.step
  let report : Report α := ⟨s.ticks + 1, fleet.telemetry s.now, fleet.alerts s.now⟩
  let (sink, accepted) := Sink.emit s.sink report
  return ({ s with fleet, sink, ticks := s.ticks + 1 }, accepted.map fun _ => report)

/-- The least number of seconds that is too long to be waited for. -/
def endlessPeriod : α := 18446744073709551616.0

/-- A rate above zero sets the time between two ticks, which has to be one that can be waited for.
Any other rate lets the ticks follow each other at once. -/
def checkRate (rate : α) : Except Fault Unit :=
  if 0.0 < rate ∧ Scalar.isFinite rate = true ∧ ¬ 1.0 / rate < endlessPeriod then
    .error .endlessPeriod
  else .ok ()

/-- One round of a run, after `ran` ticks: the run ends if it is seen to be asked to stop or has
reached its limit, else it ticks and goes on unless the sink refuses the report. -/
def proceed (limit : Option Nat) (stop : Nat → Bool) :
    Nat × Simulation α σ →
      Except Fault ((Nat × Simulation α σ) ⊕ (Simulation α σ × Except ε Nat))
  | (ran, s) => do
    if stop ran || limit.any (· ≤ ran) then return .inr (s, .ok ran)
    match ← s.tick with
    | (s, .ok _) => return .inl (ran + 1, s)
    | (s, .error e) => return .inr (s, .error e)

/-- Round after round until the run ends; the result is how many ticks it made. There is one look at
the request to stop in each round, and `stop` is what the looks see. What nothing ends goes on for
ever. -/
def loop (limit : Option Nat) (stop : Nat → Bool) (ran : Nat) (s : Simulation α σ) :
    Except Fault (Simulation α σ × Except ε Nat) :=
  have : Nonempty (Simulation α σ × Except ε Nat) := ⟨s, .ok ran⟩
  repeatM (proceed limit stop) (ran, s)

theorem loop_eq (limit : Option Nat) (stop : Nat → Bool) (ran : Nat) (s : Simulation α σ) :
    loop limit stop ran s
      = if stop ran || limit.any (· ≤ ran) then .ok (s, .ok ran)
        else match s.tick with
          | .error fault => .error fault
          | .ok (s, .error e) => .ok (s, .error e)
          | .ok (s, .ok _) => loop limit stop (ran + 1) s := by
  have : Nonempty (Simulation α σ × Except ε Nat) := ⟨s, .ok ran⟩
  rw [loop, repeatM_eq_of_monadTail, repeatM.body, proceed]
  split
  · rfl
  · rcases s.tick with _ | ⟨s, _ | _⟩ <;> rfl

/-- A run during which the request to stop may come. -/
def runUntil (s : Simulation α σ) (limit : Option Nat) (rate : α) (stop : Nat → Bool) :
    Except Fault (Simulation α σ × Except ε Nat) := do
  checkRate rate
  loop limit stop 0 s

/-- A run that is asked to stop before it starts, or is not. -/
def run (s : Simulation α σ) (limit : Option Nat) (rate : α) (stop : Bool) :
    Except Fault (Simulation α σ × Except ε Nat) :=
  s.runUntil limit rate fun _ => stop

end Simulation

end PitFleet
