import PitFleet.Proofs.Fleet.Building
import PitFleet.Proofs.Scalar.Doubles

/-!
# The haul cycle over a run

An update moves a cycle on by one state at most (`CycleStep`), and never that of a vehicle that
idles, digs or is inactive. The haul route stays, and a vehicle that hauls or dumps is on it and one
that returns is on its reverse (`OnRoute`): every fleet that is built starts so, and every move keeps
it, since the route is written together with the state.
-/

namespace PitFleet

open Navigation

/-- The haul cycle in its one direction. -/
inductive Cycle.Follows : Cycle → Cycle → Prop
  | hauling : Follows .loading .hauling
  | dumping : Follows .hauling .dumping
  | returning : Follows .dumping .returning
  | loading : Follows .returning .loading

variable {α : Type} [Scalar α]

def Vehicle.CycleFixed (v : Vehicle α) : Prop :=
  v.cycle = .idle ∨ v.category = .excavator ∨ v.active = false

/-- What an update may do to the cycle of a vehicle. -/
structure CycleStep (v w : Vehicle α) : Prop where
  follows : w.cycle = v.cycle ∨ v.cycle.Follows w.cycle
  fixed : v.CycleFixed → w.cycle = v.cycle
  /-- The end of the round is no place to dump or to load at for a light vehicle. -/
  patrols : v.category = .lightVehicle →
    ¬ (v.cycle = .hauling ∧ w.cycle = .dumping) ∧ ¬ (v.cycle = .returning ∧ w.cycle = .loading)

namespace CycleStep

variable {v w : Vehicle α}

omit [Scalar α] in
theorem of_eq (h : w.cycle = v.cycle) : CycleStep v w := by
  refine ⟨.inl h, fun _ => h, fun _ => ⟨?_, ?_⟩⟩
  · rintro ⟨hv, hw⟩
    rw [h, hv] at hw
    exact absurd hw (by decide)
  · rintro ⟨hv, hw⟩
    rw [h, hv] at hw
    exact absurd hw (by decide)

omit [Scalar α] in
theorem of_follows (hs : Fleet.Steers v) (h : v.cycle.Follows w.cycle)
    (hlight : v.category = .lightVehicle → v.cycle = .loading ∨ v.cycle = .dumping) :
    CycleStep v w := by
  refine ⟨.inr h, ?_, fun hv => ⟨?_, ?_⟩⟩
  · rintro (hidle | hdigs | hoff)
    · rw [hidle] at h
      cases h
    · exact absurd hdigs hs.2
    · rw [hs.1] at hoff
      cases hoff
  · rintro ⟨hhauls, -⟩
    rcases hlight hv with hc | hc <;> rw [hc] at hhauls <;> cases hhauls
  · rintro ⟨hreturns, -⟩
    rcases hlight hv with hc | hc <;> rw [hc] at hreturns <;> cases hreturns

theorem advance (h : CycleStep v w) (dt : α) : CycleStep v (w.advance dt) := by
  refine ⟨?_, ?_, ?_⟩ <;> rw [Vehicle.cycle_advance]
  exacts [h.follows, h.fixed, h.patrols]

end CycleStep

/-- The route is the one that goes with the state of the cycle. -/
structure OnRoute (v : Vehicle α) (n : Navigation α) : Prop where
  out : v.cycle = .hauling ∨ v.cycle = .dumping → n.route = n.haulRoute
  back : v.cycle = .returning → n.route = n.haulRoute.reversed

theorem OnRoute.advance {v : Vehicle α} {n : Navigation α} (h : OnRoute v n) (dt : α) :
    OnRoute (v.advance dt) n := by
  refine ⟨?_, ?_⟩ <;> rw [Vehicle.cycle_advance]
  exacts [h.out, h.back]

namespace Navigation.Move

variable {layout : Layout α} {dt : α} {v v' : Vehicle α} {n n' : Navigation α}
  (h : Move layout dt v n v' n')
include h

theorem cycleStep (hs : Fleet.Steers v) : CycleStep v v' := by
  cases h with
  | hauls _ hc =>
    refine .of_follows hs ?_ fun _ => .inl hc
    rw [hc]
    exact .hauling
  | returns _ hc =>
    refine .of_follows hs ?_ fun _ => .inr hc
    rw [hc]
    exact .returning
  | dumps _ _ hv hc =>
    refine .of_follows hs ?_ fun hlight => absurd hlight hv
    rw [hc]
    exact .dumping
  | loads _ _ hv hc =>
    refine .of_follows hs ?_ fun hlight => absurd hlight hv
    rw [hc]
    exact .loading
  | waits | rests | holds | drives | passes | strays | laps | stops => exact .of_eq rfl

theorem onRoute (hr : OnRoute v n) : OnRoute v' n' := by
  cases h with
  | hauls => exact ⟨fun _ => rfl, nofun⟩
  | returns => exact ⟨nofun, fun _ => rfl⟩
  | dumps _ _ _ hc => exact ⟨fun _ => hr.out (.inl hc), nofun⟩
  | loads => exact ⟨nofun, nofun⟩
  | waits | rests | holds | drives | passes | strays | laps | stops => exact ⟨hr.out, hr.back⟩

end Navigation.Move

namespace Member

variable {layout : Layout α} {dt : α} {m₀ m m' : Member α}

theorem Part.cycleStep (h : Part layout dt m m') : CycleStep m.vehicle m'.vehicle := by
  cases h with
  | still => exact .of_eq rfl
  | steers _ hs hmove => exact (hmove.cycleStep hs).advance dt
  | coasts => exact .of_eq (Vehicle.cycle_advance _ _)

theorem Part.onRoute (h : Part layout dt m m') (hr : OnRoute m.vehicle m.navigation) :
    OnRoute m'.vehicle m'.navigation := by
  cases h with
  | still => exact hr
  | steers _ _ hmove => exact (hmove.onRoute hr).advance dt
  | coasts => exact hr.advance dt

/-- What a run that started as `m₀` has kept. -/
structure KeepsCycle (m₀ m : Member α) : Prop where
  sameKind : Vehicle.SameKind m₀.vehicle m.vehicle
  haulRoute : m.navigation.haulRoute = m₀.navigation.haulRoute
  fixed : m₀.vehicle.CycleFixed → m.vehicle.cycle = m₀.vehicle.cycle
  onRoute : OnRoute m.vehicle m.navigation

omit [Scalar α] in
theorem KeepsCycle.refl (hr : OnRoute m.vehicle m.navigation) : KeepsCycle m m :=
  ⟨.refl _, rfl, fun _ => rfl, hr⟩

theorem KeepsCycle.next (hk : KeepsCycle m₀ m) (h : Part layout dt m m') : KeepsCycle m₀ m' := by
  refine ⟨hk.sameKind.trans h.sameKind, h.haulRoute.trans hk.haulRoute, fun hfixed => ?_,
    h.onRoute hk.onRoute⟩
  have hstill : m.vehicle.CycleFixed := by
    rw [Vehicle.CycleFixed, hk.fixed hfixed, hk.sameKind.category, hk.sameKind.active]
    exact hfixed
  exact (h.cycleStep.fixed hstill).trans (hk.fixed hfixed)

theorem run_keepsCycle (hb : m.vehicle.spec.Bounded) (hr : OnRoute m.vehicle m.navigation)
    (layout : Layout α) (dts : List α) : KeepsCycle m (m.run layout dts) :=
  (run_of_next (fun _ _ _ hk h => hk.next h) dts hb (KeepsCycle.refl hr)).2

end Member

section Start

theorem OnRoute.face {v : Vehicle α} {n : Navigation α} (h : OnRoute v n) (layout : Layout α) :
    OnRoute (face layout v n) n := by
  unfold Navigation.face
  split
  · exact h
  · split
    · exact h
    · exact ⟨h.out, h.back⟩

theorem VehicleSetup.cycle_turn (layout : Layout α) (s : VehicleSetup α) (v : Vehicle α)
    (n : Navigation α) : (s.turn layout v n).cycle = v.cycle := by
  unfold turn face
  split
  · rfl
  · split
    · rfl
    · split <;> rfl

/-- A setup on its way back gives the reverse of its route as the haul route. -/
theorem VehicleSetup.Describes.onRoute {layout : Layout α} {s : VehicleSetup α} {m : Member α}
    (h : s.Describes layout m) : OnRoute m.vehicle m.navigation := by
  cases h with
  | @mk category cycle start =>
    have hhaul : (s.navigation category cycle).haulRoute = s.haulRoute cycle := rfl
    refine ⟨?_, ?_⟩ <;> rw [cycle_turn, route_navigation, hhaul]
    · rintro (hc | hc)
      · obtain rfl : cycle = .hauling := hc
        rfl
      · obtain rfl : cycle = .dumping := hc
        rfl
    · intro hc
      obtain rfl : cycle = .returning := hc
      show (⟨s.route⟩ : Route) = ⟨s.route.reverse.reverse⟩
      rw [List.reverse_reverse]

namespace Fleet

variable [OrderedScalar α]

omit [OrderedScalar α] in
theorem onRoute_crew {e : Vehicle α × Navigation α} (he : e ∈ crew) : OnRoute e.1 e.2 := by
  have hroute : ∀ e ∈ crew (α := α), e.2.route = e.2.haulRoute := by
    simp [crew, waitingFor, following]
  have hout : ∀ e ∈ crew (α := α), e.1.cycle ≠ .returning := by
    simp [crew, Vehicle.new, Vehicle.withSpec]
  exact ⟨fun _ => hroute e he, fun hback => absurd hback (hout e he)⟩

theorem pit_consists : ∃ ms, (pit : Fleet α).Consists ms
    ∧ ∀ m ∈ ms, OnRoute m.vehicle m.navigation := by
  refine ⟨_, pit_consists_crew, fun m hm => ?_⟩
  obtain ⟨e, he, rfl⟩ := List.mem_map.1 hm
  exact (onRoute_crew he).face .pit

theorem Built.consists {f : Fleet α} (h : f.Built) :
    ∃ ms, f.Consists ms ∧ ∀ m ∈ ms, OnRoute m.vehicle m.navigation := by
  cases h with
  | pit => exact pit_consists
  | scenario h =>
    obtain ⟨ms, -, hc, hall⟩ := ofScenario_consists h
    refine ⟨ms, hc, fun m hm => ?_⟩
    obtain ⟨s, hs⟩ := VehicleSetup.describes_of_mem hall hm
    exact hs.onRoute

/-- In every state that a built fleet reaches and in the update after it, each vehicle keeps its haul
route and stays on the route of its state, and its cycle moves on by one state or not at all. -/
theorem haulCycle_of_built {f : Fleet α} (hf : f.Built) (dts : List α) (dt : α) :
    ∃ g h, f.updates dts = .ok g ∧ g.update dt = .ok h ∧ g.size = f.size ∧ h.size = f.size
      ∧ ∀ i, i < f.size → ∃ m₀ m m', f.member? i = some m₀ ∧ g.member? i = some m
        ∧ h.member? i = some m' ∧ m₀.KeepsCycle m ∧ m₀.KeepsCycle m'
        ∧ CycleStep m.vehicle m'.vehicle := by
  obtain ⟨ms, hc, hroute⟩ := hf.consists
  obtain ⟨g, hg, hlayout, hcg⟩ := updates_consists dts hc
  obtain ⟨h, hh, -, hch⟩ := update_consists hcg dt
  have hsize {f' : Fleet α} {ms' : List (Member α)} (hf' : f'.Consists ms') :
      f'.size = ms'.length := by
    rw [size, hf'.vehicles, List.length_map]
  refine ⟨g, h, hg, hh, ?_, ?_, fun i hi => ?_⟩
  · rw [hsize hcg, hsize hc, List.length_map]
  · rw [hsize hch, hsize hc, List.length_map, List.length_map]
  rw [hsize hc] at hi
  have hm : ms[i] ∈ ms := List.getElem_mem hi
  have hkeep := Member.run_keepsCycle (hc.bounded _ hm) (hroute _ hm) f.layout dts
  have hpart := Member.next_part (hcg.bounded _ (List.mem_map_of_mem hm)) g.layout dt
  refine ⟨ms[i], ms[i].run f.layout dts, (ms[i].run f.layout dts).next g.layout dt, ?_, ?_, ?_,
    hkeep, hkeep.next hpart, hpart.cycleStep⟩
  · rw [hc.member?, List.getElem?_eq_getElem hi]
  · rw [hcg.member?, List.getElem?_map, List.getElem?_eq_getElem hi]
    rfl
  · rw [hch.member?, List.getElem?_map, List.getElem?_map, List.getElem?_eq_getElem hi]
    rfl

/-- The built-in fleet in doubles, over two seconds. -/
theorem haulCycle_pit : ∃ g h, (pit : Fleet Float).updates [1.0, 0.5] = .ok g
    ∧ g.update 0.5 = .ok h ∧ g.size = (pit : Fleet Float).size ∧ h.size = (pit : Fleet Float).size
      ∧ ∀ i, i < (pit : Fleet Float).size → ∃ m₀ m m', (pit : Fleet Float).member? i = some m₀
        ∧ g.member? i = some m ∧ h.member? i = some m' ∧ m₀.KeepsCycle m ∧ m₀.KeepsCycle m'
        ∧ CycleStep m.vehicle m'.vehicle :=
  haulCycle_of_built .pit [1.0, 0.5] 0.5

end Fleet

end Start

end PitFleet
