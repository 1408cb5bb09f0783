import PitFleet.Fleet.Basic
import PitFleet.Proofs.Fleet.Moves

/-!
# A fleet is its members

A member is a vehicle with its navigation. In an update each member takes its own part, whatever the
others do: an update of a fleet is `Member.next` of all its members (`update_consists`) and a run is
`Member.run` of them (`updates_consists`), without a fault. What every part preserves is kept by a
run (`Member.run_of_next`).
-/

namespace PitFleet

open Navigation

variable {α : Type} [Scalar α]

structure Member (α : Type) where
  vehicle : Vehicle α
  navigation : Navigation α

namespace Member

def step (layout : Layout α) (dt : α) (m : Member α) : Except Fault (Member α) :=
  if Fleet.Steers m.vehicle then do
    let (v, n) ← navigate layout m.vehicle m.navigation dt
    return ⟨v.advance dt, n⟩
  else .ok ⟨m.vehicle.advance dt, m.navigation⟩

/-- The member after an update. A span that is no step changes nothing, and a fault, which no
bounded vehicle meets, would leave it as it is. -/
def next (layout : Layout α) (m : Member α) (dt : α) : Member α :=
  if Scalar.IsStep dt then (m.step layout dt).toOption.getD m else m

/-- The member after the updates in the list. -/
def run (layout : Layout α) (m : Member α) (dts : List α) : Member α :=
  dts.foldl (next layout) m

/-- What an update does to a member. -/
inductive Part (layout : Layout α) (dt : α) (m : Member α) : Member α → Prop
  | still (hdt : ¬ Scalar.IsStep dt) : Part layout dt m m
  | steers {v : Vehicle α} {n : Navigation α} (hdt : Scalar.IsStep dt)
      (hs : Fleet.Steers m.vehicle) (hmove : Move layout dt m.vehicle m.navigation v n) :
      Part layout dt m ⟨v.advance dt, n⟩
  | coasts (hdt : Scalar.IsStep dt) (hs : ¬ Fleet.Steers m.vehicle) :
      Part layout dt m ⟨m.vehicle.advance dt, m.navigation⟩

variable {layout : Layout α} {dt : α} {m : Member α}

theorem next_of_step {m' : Member α} (hdt : Scalar.IsStep dt) (h : m.step layout dt = .ok m') :
    m.next layout dt = m' := by
  rw [next, if_pos hdt, h]
  rfl

section Bounded

variable (hb : m.vehicle.spec.Bounded)
include hb

theorem step_eq (layout : Layout α) (hdt : Scalar.IsStep dt) :
    m.step layout dt = .ok (m.next layout dt) := by
  have hok : ∃ m', m.step layout dt = .ok m' := by
    unfold step
    split
    · obtain ⟨v, n, heq, -⟩ := exists_move layout dt m.navigation hb
      rw [heq, Fault.ok_bind]
      exact ⟨_, rfl⟩
    · exact ⟨_, rfl⟩
  obtain ⟨m', hm'⟩ := hok
  rw [hm', next_of_step hdt hm']

theorem next_part (layout : Layout α) (dt : α) : Part layout dt m (m.next layout dt) := by
  by_cases hdt : Scalar.IsStep dt
  · by_cases hs : Fleet.Steers m.vehicle
    · obtain ⟨v, n, heq, hmove⟩ := exists_move layout dt m.navigation hb
      have hstep : m.step layout dt = .ok ⟨v.advance dt, n⟩ := by
        rw [step, if_pos hs, heq, Fault.ok_bind]
        rfl
      rw [next_of_step hdt hstep]
      exact .steers hdt hs hmove
    · rw [next_of_step hdt (if_neg hs)]
      exact .coasts hdt hs
  · rw [next, if_neg hdt]
    exact .still hdt

end Bounded

namespace Part

variable {m' : Member α} (h : Part layout dt m m')
include h

theorem sameKind : Vehicle.SameKind m.vehicle m'.vehicle := by
  cases h with
  | still => exact .refl _
  | steers _ _ hmove => exact hmove.sameKind.trans (Vehicle.sameKind_advance _ dt)
  | coasts => exact Vehicle.sameKind_advance _ dt

theorem haulRoute : m'.navigation.haulRoute = m.navigation.haulRoute := by
  cases h with
  | still => rfl
  | steers _ _ hmove => exact hmove.haulRoute
  | coasts => rfl

theorem bounded (hb : m.vehicle.spec.Bounded) : m'.vehicle.spec.Bounded := by
  rw [h.sameKind.spec]
  exact hb

end Part

/-- What every part of a bounded member preserves, a run preserves. -/
theorem run_of_next {P : Member α → Prop}
    (hnext : ∀ m m' dt, P m → Part layout dt m m' → P m') :
    ∀ (dts : List α) {m : Member α}, m.vehicle.spec.Bounded → P m →
      (m.run layout dts).vehicle.spec.Bounded ∧ P (m.run layout dts)
  | [], _, hb, h => ⟨hb, h⟩
  | dt :: dts, _, hb, h =>
    have hpart := next_part hb layout dt
    run_of_next hnext dts (hpart.bounded hb) (hnext _ _ _ h hpart)

end Member

namespace Fleet

/-- The member in a place of the fleet's order. -/
def member? (f : Fleet α) (i : ℕ) : Option (Member α) :=
  f.vehicles[i]?.bind fun v => (f.navigation? v.id).map fun n => ⟨v, n⟩

/-- The fleet holds these members, in this order, and nothing else. -/
structure Consists (f : Fleet α) (ms : List (Member α)) : Prop where
  vehicles : f.vehicles = ms.map (·.vehicle)
  navigation : ∀ m ∈ ms, f.navigation.get? m.vehicle.id = some m.navigation
  keys : f.navigation.keys.Perm (ms.map (·.vehicle.id))
  bounded : ∀ m ∈ ms, m.vehicle.spec.Bounded

variable {f : Fleet α} {ms : List (Member α)} {layout : Layout α} {dt : α}

/-- One vehicle's part enters its own navigation only. -/
theorem stepVehicle_eq (layout : Layout α) {m : Member α} {r : Registry (Navigation α)}
    (hdt : Scalar.IsStep dt)
    (hb : m.vehicle.spec.Bounded) (hget : r.get? m.vehicle.id = some m.navigation) :
    ∃ r', stepVehicle layout dt m.vehicle r = .ok ((m.next layout dt).vehicle, r')
      ∧ r'.keys = r.keys
      ∧ ∀ k, r'.get? k
        = if k = m.vehicle.id then some (m.next layout dt).navigation else r.get? k := by
  have hstep := Member.step_eq hb layout hdt
  unfold stepVehicle
  by_cases hs : Steers m.vehicle
  · obtain ⟨v, n, heq, hmove⟩ := exists_move layout dt m.navigation hb
    have hid : v.id = m.vehicle.id := hmove.sameKind.id
    rw [Member.step, if_pos hs, heq, Fault.ok_bind] at hstep
    have hnext : ⟨v.advance dt, n⟩ = m.next layout dt := Except.ok.inj hstep
    have hmem : m.vehicle.id ∈ r.keys := by
      rw [← Registry.contains_iff, Registry.contains, hget]
      rfl
    simp only [if_pos hs, hget, heq, Fault.ok_bind, ← hnext, hid]
    refine ⟨_, rfl, ?_, fun k => r.get?_insert m.vehicle.id k n⟩
    rw [Registry.keys_insert, if_pos hmem]
  · rw [Member.step, if_neg hs] at hstep
    have hnext : ⟨m.vehicle.advance dt, m.navigation⟩ = m.next layout dt := Except.ok.inj hstep
    rw [if_neg hs, ← hnext]
    refine ⟨r, rfl, rfl, fun k => ?_⟩
    split
    · rw [‹k = _›, hget]
    · rfl

/-- As the vehicles' names differ, no part changes what a later one finds. -/
theorem stepVehicles_eq (layout : Layout α) (hdt : Scalar.IsStep dt) : ∀ (ms : List (Member α))
    (r : Registry (Navigation α)), (∀ m ∈ ms, m.vehicle.spec.Bounded) →
      (∀ m ∈ ms, r.get? m.vehicle.id = some m.navigation) → (ms.map (·.vehicle.id)).Nodup →
        ∃ r', stepVehicles layout dt (ms.map (·.vehicle)) r
            = .ok (ms.map fun m => (m.next layout dt).vehicle, r')
          ∧ r'.keys = r.keys
          ∧ (∀ m ∈ ms, r'.get? m.vehicle.id = some (m.next layout dt).navigation)
          ∧ ∀ k, k ∉ ms.map (·.vehicle.id) → r'.get? k = r.get? k
  | [], r, _, _, _ => ⟨r, rfl, rfl, by simp, fun _ _ => rfl⟩
  | m :: ms, r, hb, hget, hnodup => by
    simp only [List.forall_mem_cons] at hb hget
    simp only [List.map_cons, List.nodup_cons] at hnodup
    obtain ⟨r₁, hstep, hkeys₁, hget₁⟩ := stepVehicle_eq layout hdt hb.1 hget.1
    have hrest : ∀ m' ∈ ms, r₁.get? m'.vehicle.id = some m'.navigation := by
      intro m' hm'
      have hne : m'.vehicle.id ≠ m.vehicle.id := fun hc =>
        hnodup.1 (hc ▸ List.mem_map_of_mem hm')
      rw [hget₁, if_neg hne]
      exact hget.2 m' hm'
    obtain ⟨r₂, hsteps, hkeys₂, hget₂, hframe⟩ :=
      stepVehicles_eq layout hdt ms r₁ hb.2 hrest hnodup.2
    refine ⟨r₂, ?_, hkeys₂.trans hkeys₁, ?_, fun k hk => ?_⟩
    · simp only [List.map_cons, stepVehicles, hstep, hsteps, Fault.ok_bind]
      rfl
    · rw [List.forall_mem_cons]
      refine ⟨?_, hget₂⟩
      rw [hframe _ hnodup.1, hget₁, if_pos rfl]
    · simp only [List.map_cons, List.mem_cons, not_or] at hk
      rw [hframe k hk.2, hget₁, if_neg hk.1]

namespace Consists

variable (h : f.Consists ms)
include h

theorem nodup : (ms.map (·.vehicle.id)).Nodup :=
  h.keys.nodup_iff.1 f.navigation.nodup

theorem ids_next (dt : α) :
    (ms.map (·.next f.layout dt)).map (·.vehicle.id) = ms.map (·.vehicle.id) := by
  rw [List.map_map]
  exact List.map_congr_left fun m hm =>
    (Member.next_part (h.bounded m hm) f.layout dt).sameKind.id

theorem member? (i : ℕ) : f.member? i = ms[i]? := by
  rw [Fleet.member?, h.vehicles, List.getElem?_map]
  rcases hm : ms[i]? with _ | m
  · rfl
  · have hget := h.navigation m (List.mem_of_getElem? hm)
    simp only [Option.map_some, Option.bind_some, navigation?, hget]

end Consists

theorem update_consists (h : f.Consists ms) (dt : α) :
    ∃ g, f.update dt = .ok g ∧ g.layout = f.layout
      ∧ g.Consists (ms.map (·.next f.layout dt)) := by
  have hid (m : Member α) (hm : m ∈ ms) : (m.next f.layout dt).vehicle.id = m.vehicle.id :=
    (Member.next_part (h.bounded m hm) f.layout dt).sameKind.id
  have hbounded : ∀ m ∈ ms.map (·.next f.layout dt), m.vehicle.spec.Bounded := by
    simp only [List.forall_mem_map]
    exact fun m hm => (Member.next_part (h.bounded m hm) f.layout dt).bounded (h.bounded m hm)
  unfold update
  by_cases hdt : Scalar.IsStep dt
  · obtain ⟨r, hsteps, hkeys, hget, -⟩ :=
      stepVehicles_eq f.layout hdt ms f.navigation h.bounded h.navigation h.nodup
    rw [if_pos hdt, h.vehicles, hsteps, Fault.ok_bind]
    refine ⟨_, rfl, rfl, ?_, ?_, ?_, hbounded⟩
    · rw [List.map_map]
      rfl
    · simp only [List.forall_mem_map]
      intro m hm
      rw [hid m hm]
      exact hget m hm
    · rw [h.ids_next]
      exact hkeys ▸ h.keys
  · have hstill : ms.map (·.next f.layout dt) = ms := by
      rw [← List.map_id ms, List.map_map]
      exact List.map_congr_left fun m _ => if_neg hdt
    rw [if_neg hdt, hstill]
    exact ⟨f, rfl, rfl, h⟩

theorem updates_consists : ∀ (dts : List α) {f : Fleet α} {ms : List (Member α)},
    f.Consists ms → ∃ g, f.updates dts = .ok g ∧ g.layout = f.layout
      ∧ g.Consists (ms.map (·.run f.layout dts))
  | [], f, ms, h => ⟨f, rfl, rfl, by simpa [Member.run] using h⟩
  | dt :: dts, f, ms, h => by
    obtain ⟨g, hg, hlayout, hc⟩ := update_consists h dt
    obtain ⟨g', hg', hlayout', hc'⟩ := updates_consists dts hc
    refine ⟨g', ?_, hlayout'.trans hlayout, ?_⟩
    · rw [updates, hg, Fault.ok_bind, hg']
    · rw [List.map_map, hlayout] at hc'
      exact hc'

namespace Consists

variable (h : f.Consists ms) {i : ℕ} {m : Member α} (hm : ms[i]? = some m) (dts : List α)
include h hm

/-- A member in the state that a run reaches. -/
theorem run : ∃ g, f.updates dts = .ok g ∧ g.layout = f.layout
    ∧ g.Consists (ms.map (·.run f.layout dts)) ∧ g.member? i = some (m.run f.layout dts) := by
  obtain ⟨g, hg, hlayout, hcg⟩ := updates_consists dts h
  refine ⟨g, hg, hlayout, hcg, ?_⟩
  rw [hcg.member?, List.getElem?_map, hm]
  rfl

/-- A member in the state that a run reaches and in the update after it. -/
theorem run_update (dt : α) : ∃ g g', f.updates dts = .ok g ∧ g.layout = f.layout
    ∧ g.update dt = .ok g' ∧ g.member? i = some (m.run f.layout dts)
    ∧ g'.member? i = some ((m.run f.layout dts).next f.layout dt)
    ∧ Member.Part f.layout dt (m.run f.layout dts) ((m.run f.layout dts).next f.layout dt) := by
  obtain ⟨g, hg, hlayout, hcg, hgm⟩ := h.run hm dts
  obtain ⟨g', hg', -, hch⟩ := update_consists hcg dt
  have hmem : m.run f.layout dts ∈ ms.map (·.run f.layout dts) :=
    List.mem_map_of_mem (List.mem_of_getElem? hm)
  refine ⟨g, g', hg, hlayout, hg', hgm, ?_, Member.next_part (hcg.bounded _ hmem) f.layout dt⟩
  rw [hch.member?, List.getElem?_map, List.getElem?_map, hm, hlayout]
  rfl

end Consists

end Fleet

end PitFleet
