import Mathlib.Data.List.Find
import Mathlib.Data.List.Nodup
import PitFleet.Proofs.Fleet.Joining

/-!
# Each vehicle drives on its own

A coherent fleet consists of members (`Coherent.exists_consists`) and finds each by its name
(`Consists.vehicle?`). As a run takes every member on by itself, two fleets of one layout that hold
a vehicle in the same state still do so after the same steps (`updates_sameAt`), whatever else is in
them and in whatever order. Every fleet that can be reached is coherent (`Reached.coherent`).
-/

namespace PitFleet

variable {α : Type} [Scalar α]

theorem Member.id_run (layout : Layout α) (dts : List α) {m : Member α}
    (hb : m.vehicle.spec.Bounded) : (m.run layout dts).vehicle.id = m.vehicle.id :=
  (run_of_next (P := fun m' => m'.vehicle.id = m.vehicle.id)
    (fun _ _ _ hid h => h.sameKind.id.trans hid) dts hb rfl).2

namespace Fleet

/-- No two vehicles have one name, each has its navigation and there is no other, and no setter of a
vehicle fails. -/
structure Coherent (f : Fleet α) : Prop where
  nodup : (f.vehicles.map (·.id)).Nodup
  keys : ∀ id, f.navigation.contains id = true ↔ id ∈ f.vehicles.map (·.id)
  bounded : ∀ v ∈ f.vehicles, v.spec.Bounded

/-- Both fleets hold a vehicle of this name in the same state, or neither holds one. -/
structure SameAt (id : String) (f g : Fleet α) : Prop where
  vehicle : g.vehicle? id = f.vehicle? id
  navigation : g.navigation? id = f.navigation? id

def alone (layout : Layout α) (m : Member α) : Fleet α :=
  (new layout).push m.vehicle m.navigation

/-- The fleets that there can be. -/
inductive Reached : Fleet α → Prop
  | new (layout : Layout α) : Reached (new layout)
  | built {f : Fleet α} (h : f.Built) : Reached f
  | add {f g : Fleet α} {v : Vehicle α} {n : Navigation α} (h : f.Reached) (hb : v.spec.Bounded)
      (hg : f.add v n = .ok g) : Reached g
  | update {f g : Fleet α} {dt : α} (h : f.Reached) (hg : f.update dt = .ok g) : Reached g

variable {f g : Fleet α} {ms : List (Member α)} {id : String}

namespace Consists

variable (h : f.Consists ms)
include h

theorem vehicle? (id : String) :
    f.vehicle? id = (ms.find? (·.vehicle.id = id)).map (·.vehicle) := by
  rw [Fleet.vehicle?, h.vehicles, List.find?_map]
  rfl

theorem navigation? (id : String) :
    f.navigation? id = (ms.find? (·.vehicle.id = id)).map (·.navigation) := by
  rcases hm : ms.find? (·.vehicle.id = id) with _ | m <;> rw [hm]
  · have hout : id ∉ f.navigation.keys := by
      rw [h.keys.mem_iff]
      intro hc
      obtain ⟨m, hmem, hid⟩ := List.mem_map.1 hc
      exact List.find?_eq_none.1 hm m hmem (decide_eq_true hid)
    rw [← Registry.contains_iff, Registry.contains, Bool.not_eq_true, Option.isSome_eq_false_iff,
      Option.isNone_iff_eq_none] at hout
    exact hout
  · have hid := List.find?_some hm
    rw [decide_eq_true_iff] at hid
    rw [← hid]
    exact h.navigation m (List.mem_of_find?_eq_some hm)

theorem coherent : f.Coherent where
  nodup := by
    rw [h.vehicles, List.map_map]
    exact h.nodup
  keys id := by
    rw [Registry.contains_iff, h.keys.mem_iff, h.vehicles, List.map_map]
    rfl
  bounded := by
    rw [h.vehicles, List.forall_mem_map]
    exact h.bounded

theorem find?_run (dts : List α) (id : String) :
    (ms.map (·.run f.layout dts)).find? (·.vehicle.id = id)
      = (ms.find? (·.vehicle.id = id)).map (·.run f.layout dts) := by
  rw [List.find?_map]
  congr 1
  refine List.find?_congr fun m hm => ?_
  simp only [Function.comp_apply, Member.id_run f.layout dts (h.bounded m hm)]

end Consists

/-- A coherent fleet consists of its vehicles, each with its navigation. -/
theorem Coherent.exists_consists (h : f.Coherent) : ∃ ms, f.Consists ms := by
  have hsome : ∀ v ∈ f.vehicles, (f.navigation.get? v.id).isSome = true := fun v hv =>
    (h.keys v.id).2 (List.mem_map_of_mem hv)
  refine ⟨f.vehicles.pmap (fun v hv => ⟨v, (f.navigation.get? v.id).get hv⟩) hsome, ?_, ?_, ?_, ?_⟩
  · rw [List.map_pmap, List.pmap_eq_map, List.map_id']
  · intro m hm
    obtain ⟨v, hv, rfl⟩ := List.mem_pmap.1 hm
    exact (Option.some_get _).symm
  · rw [List.map_pmap, List.pmap_eq_map]
    refine (List.perm_ext_iff_of_nodup f.navigation.nodup h.nodup).2 fun id => ?_
    rw [← h.keys id, Registry.contains_iff]
    rfl
  · intro m hm
    obtain ⟨v, hv, rfl⟩ := List.mem_pmap.1 hm
    exact h.bounded v hv

/-- A run takes every vehicle on by itself, under its own name. -/
theorem Coherent.updates (h : f.Coherent) (dts : List α) : ∃ g, f.updates dts = .ok g
    ∧ g.Coherent ∧ g.vehicles.map (·.id) = f.vehicles.map (·.id) := by
  obtain ⟨ms, hc⟩ := h.exists_consists
  obtain ⟨g, hg, -, hcg⟩ := updates_consists dts hc
  refine ⟨g, hg, hcg.coherent, ?_⟩
  rw [hcg.vehicles, hc.vehicles, List.map_map, List.map_map, List.map_map]
  exact List.map_congr_left fun m hm => Member.id_run f.layout dts (hc.bounded m hm)

theorem Consists.find?_eq {ms' : List (Member α)} (hf : f.Consists ms) (hg : g.Consists ms')
    (h : SameAt id f g) :
    ms'.find? (·.vehicle.id = id) = ms.find? (·.vehicle.id = id) := by
  have hvehicle := h.vehicle
  have hnavigation := h.navigation
  rw [hf.vehicle?, hg.vehicle?] at hvehicle
  rw [hf.navigation?, hg.navigation?] at hnavigation
  rcases hm : ms.find? (·.vehicle.id = id) with _ | ⟨v, n⟩ <;> rw [hm] at hvehicle hnavigation ⊢
  · exact Option.map_eq_none_iff.1 hvehicle
  · obtain ⟨⟨v', n'⟩, hm', rfl⟩ := Option.map_eq_some_iff.1 hvehicle
    rw [hm', Option.map_some, Option.map_some, Option.some_inj] at hnavigation
    obtain rfl : n' = n := hnavigation
    exact hm'

/-- Vehicles that two fleets of one layout hold in the same state drive alike. -/
theorem updates_sameAt {f' g' : Fleet α} {dts : List α} (hf : f.Coherent) (hg : g.Coherent)
    (hlayout : g.layout = f.layout) (hf' : f.updates dts = .ok f') (hg' : g.updates dts = .ok g')
    (h : SameAt id f g) : SameAt id f' g' := by
  obtain ⟨ms, hms⟩ := hf.exists_consists
  obtain ⟨ms', hms'⟩ := hg.exists_consists
  obtain ⟨f'', hf'', -, hcf⟩ := updates_consists dts hms
  obtain ⟨g'', hg'', -, hcg⟩ := updates_consists dts hms'
  obtain rfl : f'' = f' := Except.ok.inj (hf''.symm.trans hf')
  obtain rfl : g'' = g' := Except.ok.inj (hg''.symm.trans hg')
  have hrun : (ms'.map (·.run g.layout dts)).find? (·.vehicle.id = id)
      = (ms.map (·.run f.layout dts)).find? (·.vehicle.id = id) := by
    rw [hms.find?_run, hms'.find?_run, hms.find?_eq hms' h, hlayout]
  refine ⟨?_, ?_⟩
  · rw [hcf.vehicle?, hcg.vehicle?, hrun]
  · rw [hcf.navigation?, hcg.navigation?, hrun]

section Alone

variable {layout : Layout α} {v : Vehicle α} {n : Navigation α}

variable (layout n) in
theorem alone_consists (hb : v.spec.Bounded) : (alone layout ⟨v, n⟩).Consists [⟨v, n⟩] :=
  push_consists (new_consists layout) List.not_mem_nil hb

theorem Coherent.vehicle?_eq_some_iff (h : f.Coherent) :
    f.vehicle? id = some v ↔ v ∈ f.vehicles ∧ v.id = id := by
  rw [Fleet.vehicle?]
  constructor
  · intro hv
    have hid := List.find?_some hv
    exact ⟨List.mem_of_find?_eq_some hv, of_decide_eq_true hid⟩
  · rintro ⟨hv, rfl⟩
    have hsome : (f.vehicles.find? (·.id = v.id)).isSome = true :=
      List.find?_isSome.2 ⟨v, hv, decide_eq_true rfl⟩
    obtain ⟨w, hw⟩ := Option.isSome_iff_exists.1 hsome
    have hid : w.id = v.id := by simpa using List.find?_some hw
    rw [hw, List.inj_on_of_nodup_map h.nodup (List.mem_of_find?_eq_some hw) hv hid]

theorem Coherent.sameAt_alone (h : f.Coherent) (hv : v ∈ f.vehicles)
    (hn : f.navigation? v.id = some n) : SameAt v.id f (alone f.layout ⟨v, n⟩) := by
  have halone := alone_consists f.layout n (h.bounded v hv)
  refine ⟨?_, ?_⟩
  · rw [h.vehicle?_eq_some_iff.2 ⟨hv, rfl⟩, halone.vehicle?]
    simp
  · rw [hn, halone.navigation?]
    simp

end Alone

section Order

variable (h : f.Coherent) (hp : g.vehicles.Perm f.vehicles)
  (hn : ∀ id, g.navigation? id = f.navigation? id)
include h hp hn

theorem Coherent.perm : g.Coherent := by
  have hids := hp.map (·.id)
  refine ⟨hids.nodup_iff.2 h.nodup, fun id => ?_, fun v hv => h.bounded v (hp.mem_iff.1 hv)⟩
  rw [hids.mem_iff, ← h.keys id, Registry.contains, Registry.contains, ← navigation?, hn id]
  rfl

/-- The same vehicles in another order are the same by their names. -/
theorem Coherent.sameAt_of_perm (id : String) : SameAt id f g := by
  refine ⟨Option.ext fun v => ?_, hn id⟩
  rw [h.vehicle?_eq_some_iff, (h.perm hp hn).vehicle?_eq_some_iff, hp.mem_iff]

end Order

theorem Coherent.perm_of_sameAt (hf : f.Coherent) (hg : g.Coherent) (h : ∀ id, SameAt id f g) :
    g.vehicles.Perm f.vehicles := by
  refine (List.perm_ext_iff_of_nodup (List.Nodup.of_map _ hg.nodup)
    (List.Nodup.of_map _ hf.nodup)).2 fun v => ?_
  have hiff : v ∈ g.vehicles ∧ v.id = v.id ↔ v ∈ f.vehicles ∧ v.id = v.id := by
    rw [← hf.vehicle?_eq_some_iff, ← hg.vehicle?_eq_some_iff, (h v.id).vehicle]
  simpa using hiff

theorem Reached.coherent [OrderedScalar α] (h : f.Reached) : f.Coherent := by
  have hconsists : ∃ ms, f.Consists ms := by
    induction h with
    | new layout => exact ⟨[], new_consists layout⟩
    | built h =>
      obtain ⟨ms, hc, -⟩ := h.consists
      exact ⟨ms, hc⟩
    | add _ hb hg ih =>
      obtain ⟨ms, hc⟩ := ih
      obtain ⟨ha, rfl⟩ := add_eq_ok_iff.1 hg
      have hfresh := ha.fresh
      rw [Bool.eq_false_iff, Ne, Registry.contains_iff] at hfresh
      exact ⟨_, push_consists hc hfresh hb⟩
    | @update f g dt _ hg ih =>
      obtain ⟨ms, hc⟩ := ih
      obtain ⟨g', hg', -, hcg⟩ := update_consists hc dt
      obtain rfl : g' = g := Except.ok.inj (hg'.symm.trans hg)
      exact ⟨_, hcg⟩
  obtain ⟨ms, hc⟩ := hconsists
  exact hc.coherent

/-- In a run each vehicle drives as it would alone in the mine. So it does in every other fleet of
the layout that holds it in the same state, and a change of the order changes the order only. -/
theorem drives_alone [OrderedScalar α] (hf : f.Reached) (dts : List α) :
    ∃ f', f.updates dts = .ok f' ∧ f'.vehicles.map (·.id) = f.vehicles.map (·.id)
      ∧ (∀ v ∈ f.vehicles, ∃ n v' n' a, f.navigation? v.id = some n
        ∧ (alone f.layout ⟨v, n⟩).updates dts = .ok a
        ∧ a.vehicles = [v'] ∧ a.navigation? v.id = some n'
        ∧ f'.vehicle? v.id = some v' ∧ f'.navigation? v.id = some n')
      ∧ (∀ g : Fleet α, g.Coherent → g.layout = f.layout → ∃ g', g.updates dts = .ok g'
        ∧ g'.vehicles.map (·.id) = g.vehicles.map (·.id)
        ∧ ∀ v ∈ f.vehicles, v ∈ g.vehicles → g.navigation? v.id = f.navigation? v.id →
          SameAt v.id f' g')
      ∧ ∀ g : Fleet α, g.layout = f.layout → g.vehicles.Perm f.vehicles →
        (∀ id, g.navigation? id = f.navigation? id) → ∃ g', g.updates dts = .ok g'
          ∧ g'.vehicles.map (·.id) = g.vehicles.map (·.id) ∧ g'.vehicles.Perm f'.vehicles
          ∧ ∀ id, g'.navigation? id = f'.navigation? id := by
  have hcoherent := hf.coherent
  obtain ⟨f', hf', hcoherent', hids⟩ := hcoherent.updates dts
  refine ⟨f', hf', hids, fun v hv => ?_, fun g hg hlayout => ?_, fun g hlayout hp hn => ?_⟩
  · obtain ⟨n, hn⟩ := Option.isSome_iff_exists.1 ((hcoherent.keys v.id).2 (List.mem_map_of_mem hv))
    have halone := (alone_consists f.layout n (hcoherent.bounded v hv)).coherent
    obtain ⟨a, ha, hacoherent, haids⟩ := halone.updates dts
    have hsame := updates_sameAt hcoherent halone rfl hf' ha (hcoherent.sameAt_alone hv hn)
    have hmem : v.id ∈ a.vehicles.map (·.id) := by
      rw [haids]
      exact List.mem_singleton_self v.id
    obtain ⟨n', hn'⟩ := Option.isSome_iff_exists.1 ((hacoherent.keys v.id).2 hmem)
    obtain ⟨v', hv', hid⟩ := List.map_eq_singleton_iff.1 haids
    refine ⟨n, v', n', a, hn, ha, hv', hn', ?_, ?_⟩
    · rw [← hsame.vehicle, hacoherent.vehicle?_eq_some_iff, hv']
      exact ⟨List.mem_singleton_self v', hid⟩
    · rw [← hsame.navigation]
      exact hn'
  · obtain ⟨g', hg', -, hgids⟩ := hg.updates dts
    refine ⟨g', hg', hgids, fun v hv hgv hn => ?_⟩
    refine updates_sameAt hcoherent hg hlayout hf' hg' ⟨?_, hn⟩
    rw [hcoherent.vehicle?_eq_some_iff.2 ⟨hv, rfl⟩, hg.vehicle?_eq_some_iff.2 ⟨hgv, rfl⟩]
  · have hg := hcoherent.perm hp hn
    obtain ⟨g', hg', hgcoherent, hgids⟩ := hg.updates dts
    have hsame (id : String) : SameAt id f' g' :=
      updates_sameAt hcoherent hg hlayout hf' hg' (hcoherent.sameAt_of_perm hp hn id)
    exact ⟨g', hg', hgids, hcoherent'.perm_of_sameAt hgcoherent hsame,
      fun id => (hsame id).navigation⟩

section Pair

variable [OrderedScalar α]

theorem Reached.push_departing {id : String} (h : f.Reached) (hlayout : f.layout = .pit)
    (hid : id ∉ f.navigation.keys) : (f.push (departing id) outbound).Reached := by
  have hjoins : Joinable f.layout f.navigation.keys (departing id) outbound := by
    rw [hlayout]
    exact joinable_departing hid
  exact h.add (departing_bounded id) (add_eq_ok_iff.2 ⟨admits_of_joinable hjoins, rfl⟩)

/-- The built-in pit with two trucks that set out one after the other. -/
theorem exists_pair : ∃ f : Fleet α, f.Reached
    ∧ f.vehicles = [departing "HT-1", departing "HT-2"]
    ∧ f.navigation? "HT-2" = some outbound := by
  obtain ⟨layout, hlayout⟩ : ∃ layout : Layout α, layout = .pit := ⟨_, rfl⟩
  have hfirst : ((new layout).push (departing "HT-1") outbound).Reached :=
    (Reached.new layout).push_departing hlayout List.not_mem_nil
  have hnew : "HT-2" ∉ ((new layout).push (departing "HT-1") outbound).navigation.keys := by
    show "HT-2" ∉ ["HT-1"]
    decide
  refine ⟨_, hfirst.push_departing hlayout hnew, rfl, ?_⟩
  exact (Registry.get?_insert ..).trans (if_pos rfl)

/-- Both trucks in doubles, over a second and a half. -/
theorem drives_alone_departing : ∃ f : Fleet Float, f.Reached
    ∧ f.vehicles = [departing "HT-1", departing "HT-2"]
    ∧ ∃ f', f.updates [1.0, 0.5] = .ok f'
      ∧ (∃ v' n' a, (alone f.layout ⟨departing "HT-2", outbound⟩).updates [1.0, 0.5] = .ok a
        ∧ a.vehicles = [v'] ∧ a.navigation? "HT-2" = some n'
        ∧ f'.vehicle? "HT-2" = some v' ∧ f'.navigation? "HT-2" = some n')
      ∧ ∃ g', ({ f with vehicles := f.vehicles.reverse } : Fleet Float).updates [1.0, 0.5] = .ok g'
        ∧ g'.vehicles.Perm f'.vehicles ∧ ∀ id, g'.navigation? id = f'.navigation? id := by
  obtain ⟨f, hf, hvehicles, hnavigation⟩ := exists_pair (α := Float)
  obtain ⟨f', hf', -, halone, -, hperm⟩ := drives_alone hf [1.0, 0.5]
  obtain ⟨g', hg', -, hp, hn⟩ := hperm { f with vehicles := f.vehicles.reverse } rfl
    (List.reverse_perm _) fun _ => rfl
  refine ⟨f, hf, hvehicles, f', hf', ?_, g', hg', hp, hn⟩
  have hmem : departing "HT-2" ∈ f.vehicles := by
    rw [hvehicles]
    exact .tail _ (.head _)
  obtain ⟨n, v', n', a, hnav, ha⟩ := halone (departing "HT-2") hmem
  obtain rfl : outbound = n := Option.some.inj (hnavigation.symm.trans hnav)
  exact ⟨v', n', a, ha⟩

end Pair

end Fleet

end PitFleet
