import PitFleet.Proofs.Fleet.Headings
import PitFleet.Proofs.Fleet.Independence
import PitFleet.Proofs.Fleet.Loads

/-!
# What an update leaves as it is

No move of a vehicle enters its threshold or its haul route, a vehicle that digs takes no move at
all, and one that is not active is not even moved on (`Member.Part.remains`). What one update
leaves, a run leaves (`Member.run_remains`), and a span that is no step is no update
(`update_of_not_isStep`).
-/

namespace PitFleet

open Navigation

variable {α : Type} [Scalar α]

namespace Member

/-- All that a vehicle changes by navigating is the same. -/
structure Unsteered (m m' : Member α) : Prop where
  navigation : m'.navigation = m.navigation
  heading : m'.vehicle.telemetry.heading = m.vehicle.telemetry.heading
  cycle : m'.vehicle.cycle = m.vehicle.cycle
  payload : m'.vehicle.telemetry.payload = m.vehicle.telemetry.payload

/-- What is the same of a member in two states of a run. -/
structure Remains (m m' : Member α) : Prop where
  kind : m.vehicle.SameKind m'.vehicle
  arrivalThreshold : m'.navigation.arrivalThreshold = m.navigation.arrivalThreshold
  haulRoute : m'.navigation.haulRoute = m.navigation.haulRoute
  inactive : m.vehicle.active = false → m' = m
  excavator : m.vehicle.category = .excavator → m.Unsteered m'

section Transitive

omit [Scalar α]

variable {m m' m'' : Member α}

theorem Unsteered.refl (m : Member α) : m.Unsteered m :=
  ⟨rfl, rfl, rfl, rfl⟩

theorem Unsteered.trans (h : m.Unsteered m') (h' : m'.Unsteered m'') : m.Unsteered m'' :=
  ⟨h'.navigation.trans h.navigation, h'.heading.trans h.heading, h'.cycle.trans h.cycle,
    h'.payload.trans h.payload⟩

theorem Remains.refl (m : Member α) : m.Remains m :=
  ⟨.refl _, rfl, rfl, fun _ => rfl, fun _ => .refl m⟩

theorem Remains.trans (h : m.Remains m') (h' : m'.Remains m'') : m.Remains m'' where
  kind := h.kind.trans h'.kind
  arrivalThreshold := h'.arrivalThreshold.trans h.arrivalThreshold
  haulRoute := h'.haulRoute.trans h.haulRoute
  inactive hm := (h'.inactive (h.kind.active.trans hm)).trans (h.inactive hm)
  excavator hm := (h.excavator hm).trans (h'.excavator (h.kind.category.trans hm))

end Transitive

end Member

variable {layout : Layout α} {dt : α}

theorem Navigation.Move.arrivalThreshold {v v' : Vehicle α} {n n' : Navigation α}
    (h : Move layout dt v n v' n') : n'.arrivalThreshold = n.arrivalThreshold := by
  cases h <;> rfl

theorem Vehicle.advance_of_inactive {v : Vehicle α} (h : v.active = false) (dt : α) :
    v.advance dt = v := by
  refine if_neg fun hc => ?_
  rw [h] at hc
  exact Bool.false_ne_true hc.1

namespace Member

variable {m m' : Member α}

theorem Part.remains (h : Part layout dt m m') : m.Remains m' := by
  cases h with
  | still => exact .refl m
  | steers hdt hs hmove =>
    have hactive : m.vehicle.active ≠ false := by simp [hs.1]
    exact ⟨hmove.sameKind.trans (Vehicle.sameKind_advance _ dt), hmove.arrivalThreshold,
      hmove.haulRoute, fun hm => absurd hm hactive, fun hm => absurd hm hs.2⟩
  | coasts =>
    refine ⟨Vehicle.sameKind_advance _ dt, rfl, rfl, fun hm => ?_, fun _ => ⟨rfl, ?_, ?_, ?_⟩⟩
    · rw [Vehicle.advance_of_inactive hm]
    · exact Vehicle.heading_advance _ dt
    · exact Vehicle.cycle_advance _ dt
    · exact Vehicle.payload_advance _ dt

theorem run_remains (layout : Layout α) (dts : List α) (hb : m.vehicle.spec.Bounded) :
    m.Remains (m.run layout dts) :=
  (run_of_next (P := m.Remains) (fun _ _ _ hm h => hm.trans h.remains) dts hb (.refl m)).2

end Member

namespace Fleet

variable {f : Fleet α} {ms : List (Member α)}

theorem update_of_not_isStep (f : Fleet α) (hdt : ¬ Scalar.IsStep dt) : f.update dt = .ok f :=
  if_neg hdt

theorem Consists.size (h : f.Consists ms) : f.size = ms.length := by
  rw [Fleet.size, h.vehicles, List.length_map]

/-- A run keeps the layout, the order of the vehicles and whose navigation there is. -/
theorem Consists.run_ids (h : f.Consists ms) (dts : List α) :
    (ms.map (·.run f.layout dts)).map (·.vehicle.id) = ms.map (·.vehicle.id) := by
  rw [List.map_map]
  exact List.map_congr_left fun m hm => Member.id_run f.layout dts (h.bounded m hm)

/-- However long a run is, every vehicle remains what it is, one that is not active stays as it was
and an excavator does not navigate; then a span that is no step changes nothing. -/
theorem remains_of_reached [OrderedScalar α] (hf : f.Reached) (dts : List α) :
    ∃ g, f.updates dts = .ok g ∧ g.layout = f.layout ∧ g.size = f.size
      ∧ g.navigation.keys.Perm f.navigation.keys
      ∧ (∀ i, i < f.size → ∃ m m', f.member? i = some m ∧ g.member? i = some m' ∧ m.Remains m')
      ∧ ∀ dt, dt ≤ 0.0 ∨ Scalar.isFinite dt = false → g.update dt = .ok g := by
  obtain ⟨ms, hc⟩ := hf.coherent.exists_consists
  obtain ⟨g, hg, hlayout, hcg⟩ := updates_consists dts hc
  refine ⟨g, hg, hlayout, ?_, ?_, fun i hi => ?_, fun dt hdt => ?_⟩
  · rw [hcg.size, hc.size, List.length_map]
  · have hkeys := hcg.keys
    rw [hc.run_ids] at hkeys
    exact hkeys.trans hc.keys.symm
  · rw [hc.size] at hi
    have hm : ms[i]? = some ms[i] := List.getElem?_eq_getElem hi
    refine ⟨ms[i], ms[i].run f.layout dts, ?_, ?_,
      Member.run_remains f.layout dts (hc.bounded _ (List.getElem_mem hi))⟩
    · rw [hc.member?, hm]
    · rw [hcg.member?, List.getElem?_map, hm]
      rfl
  · refine g.update_of_not_isStep fun hstep => ?_
    rcases hdt with hdt | hdt
    · exact hstep.2 hdt
    · rw [hstep.1] at hdt
      cases hdt

/-- In the built-in pit with its excavator, over a second and a half. -/
theorem remains_pit : ∃ g, (pit : Fleet Float).updates [1.0, 0.5] = .ok g
    ∧ (∃ m m', (pit : Fleet Float).member? 3 = some m ∧ g.member? 3 = some m' ∧ m.Remains m')
    ∧ g.update (0.0 / 0.0) = .ok g := by
  obtain ⟨g, hg, -, -, -, hremains, hstill⟩ :=
    remains_of_reached (.built .pit) ([1.0, 0.5] : List Float)
  refine ⟨g, hg, hremains 3 ?_, hstill _ (.inr ?_)⟩
  · rw [size_pit]
    decide
  · decide +kernel

end Fleet

end PitFleet
