import Mathlib.Data.List.Forall2
import PitFleet.Fleet.Setup
import PitFleet.Proofs.Fleet.Members

/-!
# Fleets that are built

A fleet is built from a scenario or is the built-in one. Either way it is put together vehicle by
vehicle, so that it consists of the members put in (`foldl_push_consists`, `addSetups_consists`);
those of a scenario are what its setups describe (`VehicleSetup.Describes`).
-/

namespace PitFleet

open Navigation

variable {α : Type} [Scalar α]

namespace Fleet

structure Admits (f : Fleet α) (v : Vehicle α) (n : Navigation α) : Prop where
  fresh : f.navigation.contains v.id = false
  known : unknownWaypoint? f.layout n = none
  onRoute : n.route.isEmpty = true ∨ n.index < n.route.length

omit [Scalar α] in
theorem add_eq_ok_iff {f g : Fleet α} {v : Vehicle α} {n : Navigation α} :
    f.add v n = .ok g ↔ f.Admits v n ∧ g = f.push v n := by
  unfold add
  constructor
  · intro h
    split at h
    · simp at h
    · rename_i hfresh
      split at h
      · simp at h
      · rename_i hknown
        split at h
        · rename_i hroute
          exact ⟨⟨Bool.eq_false_iff.2 hfresh, hknown, hroute⟩, (Except.ok.inj h).symm⟩
        · simp at h
  · rintro ⟨⟨hfresh, hknown, hroute⟩, rfl⟩
    simp only [hfresh, Bool.false_eq_true, if_false, hknown]
    exact if_pos hroute

theorem new_consists (layout : Layout α) : (new layout).Consists [] :=
  ⟨rfl, by simp, .refl _, by simp⟩

theorem push_consists {f : Fleet α} {ms : List (Member α)} {v : Vehicle α} {n : Navigation α}
    (h : f.Consists ms) (hfresh : v.id ∉ f.navigation.keys) (hb : v.spec.Bounded) :
    (f.push v n).Consists (ms ++ [⟨v, n⟩]) := by
  refine ⟨?_, ?_, ?_, ?_⟩
  · rw [List.map_append, ← h.vehicles]
    rfl
  · rw [List.forall_mem_append, List.forall_mem_singleton]
    refine ⟨fun m hm => ?_, ?_⟩
    · have hne : m.vehicle.id ≠ v.id := fun hc =>
        hfresh (h.keys.mem_iff.2 (hc ▸ List.mem_map_of_mem hm))
      show (f.navigation.insert v.id n).get? m.vehicle.id = _
      rw [Registry.get?_insert, if_neg hne]
      exact h.navigation m hm
    · show (f.navigation.insert v.id n).get? v.id = _
      rw [Registry.get?_insert, if_pos rfl]
  · show (f.navigation.insert v.id n).keys.Perm _
    rw [Registry.keys_insert, if_neg hfresh, List.map_append]
    exact h.keys.append_right [v.id]
  · rw [List.forall_mem_append, List.forall_mem_singleton]
    exact ⟨h.bounded, hb⟩

theorem sameKind_face (layout : Layout α) (v : Vehicle α) (n : Navigation α) :
    Vehicle.SameKind v (face layout v n) := by
  unfold face
  split
  · exact .refl v
  · split
    · exact .refl v
    · exact ⟨rfl, rfl, rfl, rfl⟩

/-- Vehicles of different names, put in one after the other, each facing its waypoint. -/
theorem foldl_push_consists (layout : Layout α) : ∀ (es : List (Vehicle α × Navigation α))
    {f : Fleet α} {ms : List (Member α)}, f.Consists ms →
      (ms.map (·.vehicle.id) ++ es.map (·.1.id)).Nodup → (∀ e ∈ es, e.1.spec.Bounded) →
        (es.foldl (fun f (v, n) => f.push (face layout v n) n) f).Consists
          (ms ++ es.map fun (v, n) => ⟨face layout v n, n⟩)
  | [], f, ms, h, _, _ => by simpa using h
  | (v, n) :: es, f, ms, h, hnodup, hb => by
    simp only [List.forall_mem_cons] at hb
    have hkind := sameKind_face layout v n
    have hfresh : (face layout v n).id ∉ f.navigation.keys := by
      rw [hkind.id, h.keys.mem_iff]
      intro hc
      exact (List.nodup_append.1 hnodup).2.2 _ hc _ (List.mem_cons_self ..) rfl
    have hbounded : (face layout v n).spec.Bounded := by
      rw [hkind.spec]
      exact hb.1
    have hpush := push_consists (n := n) h hfresh hbounded
    have hnodup' : ((ms ++ [(⟨face layout v n, n⟩ : Member α)]).map (·.vehicle.id)
        ++ es.map (·.1.id)).Nodup := by
      simpa [hkind.id] using hnodup
    simpa using foldl_push_consists layout es hpush hnodup' hb.2

end Fleet

namespace VehicleSetup

/-- The vehicle at its start, with the values that its setters take. -/
def placed (s : VehicleSetup α) (category : Category) (cycle : Cycle) (start : Position α) :
    Vehicle α :=
  (((((Vehicle.new s.id category start).setCycle cycle).load s.payload).aim s.targetSpeed).drive
    s.speed).setActive s.active

theorem vehicle_eq [OrderedScalar α] (s : VehicleSetup α) (category : Category) (cycle : Cycle)
    (start : Position α) :
    s.vehicle category cycle start = .ok (s.placed category cycle start) := by
  have hb : (category.spec : Spec α).Bounded := category.spec_bounded
  have hset : ((Vehicle.new s.id category start).setCycle cycle).spec.Bounded := hb
  have hload : (((Vehicle.new s.id category start).setCycle cycle).load s.payload).spec.Bounded := hb
  have haim : ((((Vehicle.new s.id category start).setCycle cycle).load s.payload).aim
      s.targetSpeed).spec.Bounded := hb
  rw [vehicle, Vehicle.setPayload_eq hset, Fault.ok_bind, Vehicle.setTargetSpeed_eq hload,
    Fault.ok_bind, Vehicle.setSpeed_eq haim, Fault.ok_bind]
  rfl

/-- Only the heading is turned. -/
theorem exists_turn_eq (layout : Layout α) (s : VehicleSetup α) (v : Vehicle α)
    (n : Navigation α) :
    ∃ heading, s.turn layout v n = { v with telemetry.heading := heading } := by
  unfold turn face
  split
  · exact ⟨_, rfl⟩
  · split
    · exact ⟨v.telemetry.heading, rfl⟩
    · split
      · exact ⟨v.telemetry.heading, rfl⟩
      · exact ⟨_, rfl⟩

theorem sameKind_turn (layout : Layout α) (s : VehicleSetup α) (v : Vehicle α) (n : Navigation α) :
    Vehicle.SameKind v (s.turn layout v n) := by
  obtain ⟨heading, hturn⟩ := exists_turn_eq layout s v n
  rw [hturn]
  exact ⟨rfl, rfl, rfl, rfl⟩

theorem route_navigation (s : VehicleSetup α) (category : Category) (cycle : Cycle) :
    (s.navigation category cycle).route = ⟨s.route⟩ := by
  unfold navigation
  dsimp only
  split <;> rfl

theorem index_navigation (s : VehicleSetup α) (category : Category) (cycle : Cycle) :
    (s.navigation category cycle).index = s.waypointIndex.toNat := by
  unfold navigation
  dsimp only
  split <;> rfl

/-- The setup is well formed over the layout, and the member is the one that it describes. -/
inductive Describes (layout : Layout α) (s : VehicleSetup α) : Member α → Prop
  | mk {category : Category} {cycle : Cycle} {start : Position α}
      (hcategory : s.readCategory = .ok category) (hcycle : s.readCycle = .ok cycle)
      (hstart : s.findStart layout = .ok start) :
      Describes layout s ⟨s.turn layout (s.placed category cycle start)
        (s.navigation category cycle), s.navigation category cycle⟩

variable {layout : Layout α} {s : VehicleSetup α} {m : Member α}

theorem Describes.bounded [OrderedScalar α] (h : s.Describes layout m) :
    m.vehicle.spec.Bounded := by
  cases h with
  | @mk category cycle start =>
    have hkind := sameKind_turn layout s (s.placed category cycle start)
      (s.navigation category cycle)
    show (s.turn layout (s.placed category cycle start) _).spec.Bounded
    rw [hkind.spec]
    exact category.spec_bounded

theorem Describes.id (h : s.Describes layout m) : m.vehicle.id = s.id := by
  cases h
  exact (sameKind_turn ..).id

theorem Describes.position (h : s.Describes layout m) :
    layout.get? s.start = some m.vehicle.position := by
  cases h with
  | @mk category cycle start _ _ hstart =>
    obtain ⟨heading, hturn⟩ := exists_turn_eq layout s (s.placed category cycle start)
      (s.navigation category cycle)
    dsimp only
    rw [hturn]
    unfold findStart at hstart
    split at hstart
    · rw [‹layout.get? s.start = _›]
      exact congrArg some (Except.ok.inj hstart)
    · cases hstart

theorem Describes.index (h : s.Describes layout m) :
    m.navigation.index = s.waypointIndex.toNat := by
  cases h
  exact index_navigation ..

theorem Describes.route (h : s.Describes layout m) : m.navigation.route = ⟨s.route⟩ := by
  cases h
  exact route_navigation ..

theorem Describes.length_haulRoute (h : s.Describes layout m) :
    m.navigation.haulRoute.length = m.navigation.route.length := by
  cases h with
  | @mk category cycle start =>
    have hhaul : (s.navigation category cycle).haulRoute = s.haulRoute cycle := rfl
    rw [route_navigation, hhaul, haulRoute]
    split
    · exact List.length_reverse
    · rfl

theorem Describes.mem_haulRoute_iff (h : s.Describes layout m) (name : String) :
    name ∈ m.navigation.haulRoute.waypoints ↔ name ∈ s.route := by
  cases h with
  | @mk category cycle start =>
    have hhaul : (s.navigation category cycle).haulRoute = s.haulRoute cycle := rfl
    rw [hhaul, haulRoute]
    split
    · exact List.mem_reverse
    · rfl

theorem describes_of_mem {ss : List (VehicleSetup α)} {ms : List (Member α)}
    (h : List.Forall₂ (fun s m => s.Describes layout m) ss ms) (hm : m ∈ ms) :
    ∃ s : VehicleSetup α, s.Describes layout m := by
  induction h with
  | nil => cases hm
  | cons hs _ ih =>
    rcases List.mem_cons.1 hm with rfl | hm
    · exact ⟨_, hs⟩
    · exact ih hm

end VehicleSetup

namespace Fleet

variable [OrderedScalar α]

theorem addSetup_ok {f g : Fleet α} {s : VehicleSetup α} (h : (f.addSetup s).run = .ok (.ok g)) :
    ∃ m, s.Describes f.layout m ∧ f.Admits m.vehicle m.navigation
      ∧ g = f.push m.vehicle m.navigation := by
  unfold addSetup at h
  rcases hcategory : s.readCategory with e | category <;> rw [hcategory] at h
  · cases h
  rcases hcycle : s.readCycle with e | cycle <;> rw [hcycle] at h
  · cases h
  rcases hstart : s.findStart f.layout with e | start <;> rw [hstart] at h
  · cases h
  -- Read so far, the setup's vehicle is left to be made and added.
  have hmade : (ExceptT.lift (s.vehicle category cycle start) >>= fun v => (liftM (f.add
      (s.turn f.layout v (s.navigation category cycle)) (s.navigation category cycle)) :
      ExceptT SetupError (Except Fault) (Fleet α))).run = .ok (.ok g) := h
  rw [VehicleSetup.vehicle_eq] at hmade
  have hadd := add_eq_ok_iff.1 (Except.ok.inj hmade)
  exact ⟨_, .mk hcategory hcycle hstart, hadd⟩

theorem addSetup_eq {f : Fleet α} {s : VehicleSetup α} {m : Member α}
    (hm : s.Describes f.layout m) :
    (f.addSetup s).run = .ok (f.add m.vehicle m.navigation) := by
  cases hm with
  | @mk category cycle start hcategory hcycle hstart =>
    unfold addSetup
    rw [hcategory, hcycle, hstart]
    show (ExceptT.lift (s.vehicle category cycle start) >>= fun v => (liftM (f.add
      (s.turn f.layout v (s.navigation category cycle)) (s.navigation category cycle)) :
      ExceptT SetupError (Except Fault) (Fleet α))).run = _
    rw [VehicleSetup.vehicle_eq]
    rfl

theorem addSetup_of_describes {f : Fleet α} {s : VehicleSetup α} {m : Member α}
    (hm : s.Describes f.layout m) (ha : f.Admits m.vehicle m.navigation) :
    (f.addSetup s).run = .ok (.ok (f.push m.vehicle m.navigation)) := by
  rw [addSetup_eq hm, add_eq_ok_iff.2 ⟨ha, rfl⟩]

omit [OrderedScalar α] in
theorem addSetups_cons_ok {f g : Fleet α} {s : VehicleSetup α} {ss : List (VehicleSetup α)}
    (h : (f.addSetups (s :: ss)).run = .ok (.ok g)) :
    ∃ f', (f.addSetup s).run = .ok (.ok f') ∧ (f'.addSetups ss).run = .ok (.ok g) := by
  rw [addSetups, ExceptT.run_bind] at h
  rcases hs : (f.addSetup s).run with fault | e | f' <;> rw [hs] at h
  · cases h
  · cases h
  · exact ⟨f', rfl, h⟩

/-- A scenario's fleet consists of what its setups describe, in their order. -/
theorem addSetups_consists : ∀ (ss : List (VehicleSetup α)) {f g : Fleet α} {ms : List (Member α)},
    f.Consists ms → (f.addSetups ss).run = .ok (.ok g) →
      ∃ ms', g.layout = f.layout ∧ g.Consists (ms ++ ms')
        ∧ List.Forall₂ (fun s m => s.Describes f.layout m) ss ms'
  | [], f, g, ms, h, hg => by
    obtain rfl : f = g := Except.ok.inj (Except.ok.inj hg)
    exact ⟨[], rfl, by simpa using h, .nil⟩
  | s :: ss, f, g, ms, h, hg => by
    obtain ⟨f', hs, hss⟩ := addSetups_cons_ok hg
    obtain ⟨m, hm, hadmits, rfl⟩ := addSetup_ok hs
    have hfresh : m.vehicle.id ∉ f.navigation.keys := by
      rw [← Registry.contains_iff, hadmits.fresh]
      exact Bool.false_ne_true
    obtain ⟨ms', hlayout, hc, hall⟩ :=
      addSetups_consists ss (push_consists h hfresh hm.bounded) hss
    exact ⟨m :: ms', hlayout, by simpa using hc, .cons hm hall⟩

/-- The fleets that a simulation starts from. -/
inductive Built : Fleet α → Prop
  | pit : Built pit
  | scenario {s : Scenario α} {f : Fleet α} (h : (ofScenario s).run = .ok (.ok f)) : Built f

theorem ofScenario_lone {s : Scenario α} {t : VehicleSetup α} {m : Member α}
    (hs : s.vehicles = [t]) (hm : t.Describes s.layout m)
    (ha : (new s.layout).Admits m.vehicle m.navigation) :
    (ofScenario s).run = .ok (.ok ((new s.layout).push m.vehicle m.navigation)) := by
  have hadd := addSetup_of_describes (f := new s.layout) hm ha
  rw [ofScenario, hs, addSetups, ExceptT.run_bind, hadd]
  rfl

theorem ofScenario_consists {s : Scenario α} {f : Fleet α} (h : (ofScenario s).run = .ok (.ok f)) :
    ∃ ms, f.layout = s.layout ∧ f.Consists ms
      ∧ List.Forall₂ (fun t m => t.Describes s.layout m) s.vehicles ms :=
  addSetups_consists s.vehicles (new_consists s.layout) h

/-- The member that a setup of a scenario describes, in the place of the setup. -/
theorem exists_describes {s : Scenario α} {f : Fleet α} (h : (ofScenario s).run = .ok (.ok f))
    {i : ℕ} {t : VehicleSetup α} (ht : s.vehicles[i]? = some t) :
    ∃ ms m, f.layout = s.layout ∧ f.Consists ms ∧ ms[i]? = some m ∧ t.Describes s.layout m := by
  obtain ⟨ms, hlayout, hc, hall⟩ := ofScenario_consists h
  obtain ⟨hlength, hget⟩ := List.forall₂_iff_get.1 hall
  obtain ⟨hi, rfl⟩ := List.getElem?_eq_some_iff.1 ht
  have hi' : i < ms.length := hlength ▸ hi
  exact ⟨ms, ms[i], hlayout, hc, List.getElem?_eq_getElem hi', hget i hi hi'⟩

end Fleet

section Pit

namespace Layout

theorem contains_pit_of_mem_haul {name : String} (h : name ∈ Route.haul.waypoints) :
    (pit : Layout α).contains name = true := by
  simp only [Route.haul, List.mem_cons, List.not_mem_nil, or_false] at h
  rcases h with rfl | rfl | rfl | rfl | rfl | rfl | rfl | rfl <;>
    simp [pit, Registry.ofList, Registry.contains, Registry.get?_insert]

theorem get?_pit_load : (pit : Layout α).get? "PIT_LOAD_1"
    = some ⟨-20.12200, -43.95200, 820.0⟩ := by
  simp [pit, Registry.ofList, Registry.get?_insert]

theorem get?_road : (pit : Layout α).get? "ROAD_1" = some ⟨-20.11800, -43.94800, 890.0⟩ := by
  simp [pit, Registry.ofList, Registry.get?_insert]

theorem get?_dumpApproach :
    (pit : Layout α).get? "DUMP_APPROACH" = some ⟨-20.11600, -43.94600, 900.0⟩ := by
  simp [pit, Registry.ofList, Registry.get?_insert]

theorem get?_patrol : (pit : Layout α).get? "PATROL_1" = some ⟨-20.11950, -43.94950, 870.0⟩ := by
  simp [pit, Registry.ofList, Registry.get?_insert]

end Layout

namespace Fleet

/-- The vehicles of the built-in fleet, before they face their waypoints. -/
def crew : List (Vehicle α × Navigation α) :=
  let loading : Vehicle α :=
    { Vehicle.new "HT-101" .haulTruck ⟨-20.12200, -43.95200, 820.0⟩ with cycle := .loading }
  let loaded (id : String) (start : Position α) : Vehicle α :=
    { Vehicle.new id .haulTruck start with
      cycle := .hauling
      telemetry := { Telemetry.atRest with payload := Category.haulTruck.spec.maxPayload }
      targetSpeed := haulSpeed }
  let patrol : Vehicle α :=
    { Vehicle.new "LV-301" .lightVehicle ⟨-20.11950, -43.94950, 870.0⟩ with
      cycle := .hauling
      targetSpeed := patrolSpeed }
  [(loading, .waitingFor .haul loadingTime 20.0),
    (loaded "HT-102" ⟨-20.11800, -43.94800, 890.0⟩, .following .haul 4 20.0),
    (loaded "HT-103" ⟨-20.11600, -43.94600, 900.0⟩, .following .haul 6 20.0),
    (.new "EX-201" .excavator ⟨-20.12200, -43.95200, 820.0⟩,
      .waitingFor ⟨["PIT_LOAD_1"]⟩ 0.0 5.0),
    (patrol, .following .patrol 1 15.0)]

theorem pit_eq_foldl :
    (pit : Fleet α) = crew.foldl (fun f (v, n) => f.push (face .pit v n) n) (new .pit) := by
  simp only [pit, Layout.get?_pit_load, Layout.get?_road, Layout.get?_dumpApproach,
    Layout.get?_patrol, Option.getD_some]
  rfl

theorem layout_pit : (pit : Fleet α).layout = .pit := by
  rw [pit_eq_foldl]
  simp only [crew, List.foldl_cons, List.foldl_nil, push, new]

variable [OrderedScalar α]

theorem pit_consists_crew : (pit : Fleet α).Consists
    (crew.map fun (v, n) => (⟨face .pit v n, n⟩ : Member α)) := by
  rw [pit_eq_foldl]
  refine foldl_push_consists .pit _ (new_consists _) ?_ ?_
  · show (["HT-101", "HT-102", "HT-103", "EX-201", "LV-301"] : List String).Nodup
    decide
  · simp only [crew, List.forall_mem_cons]
    have htruck := Category.haulTruck.spec_bounded (α := α)
    exact ⟨htruck, htruck, htruck, Category.excavator.spec_bounded,
      Category.lightVehicle.spec_bounded, by simp⟩

end Fleet

end Pit

section Truck

/-- A haul truck at the loading floor of the built-in pit. -/
def VehicleSetup.truck (route : List String) (tag : String) (wait : α) : VehicleSetup α where
  id := "HT-1"
  category := "haul_truck"
  start := "PIT_LOAD_1"
  route := route
  waypointIndex := 0
  cycle := some tag
  targetSpeed := 0.0
  speed := 0.0
  heading := none
  waitSeconds := wait
  arrivalThreshold := none
  payload := 0.0
  active := true

/-- The built-in pit with one vehicle. -/
def Scenario.lone (t : VehicleSetup α) : Scenario α :=
  ⟨none, [], [t]⟩

namespace VehicleSetup

theorem truck_describes {tag : String} {cycle : Cycle} (hcycle : Cycle.ofTag? tag = some cycle)
    (route : List String) (wait : α) :
    (truck route tag wait).Describes .pit ⟨(truck route tag wait).turn .pit
      ((truck route tag wait).placed .haulTruck cycle ⟨-20.12200, -43.95200, 820.0⟩)
      ((truck route tag wait).navigation .haulTruck cycle),
      (truck route tag wait).navigation .haulTruck cycle⟩ := by
  have htag : Category.ofTag? "haul_truck" = some .haulTruck := by decide
  refine .mk ?_ ?_ ?_
  · simp only [readCategory, truck, htag]
  · simp only [readCycle, truck, hcycle]
  · simp only [findStart, truck, Layout.get?_pit_load]

end VehicleSetup

namespace Fleet

variable [OrderedScalar α]

omit [OrderedScalar α] in
theorem layout_lone (t : VehicleSetup α) : (Scenario.lone t).layout = .pit :=
  if_pos rfl

theorem ofScenario_truck {s : Scenario α} {route : List String} {tag : String} {wait : α}
    {m : Member α} (hs : s.vehicles = [.truck route tag wait]) (hlayout : s.layout = .pit)
    (hroute : ∀ name ∈ route, name ∈ Route.haul.waypoints)
    (hm : (VehicleSetup.truck route tag wait).Describes s.layout m) :
    (ofScenario s).run = .ok (.ok ((new s.layout).push m.vehicle m.navigation)) := by
  have hknown : unknownWaypoint? s.layout m.navigation = none := by
    rw [unknownWaypoint?, hm.route, List.find?_eq_none]
    intro name hname
    rw [List.mem_append, hm.mem_haulRoute_iff] at hname
    rw [hlayout, Layout.contains_pit_of_mem_haul (hroute name (or_self_iff.1 hname))]
    decide
  refine ofScenario_lone hs hm ⟨rfl, hknown, ?_⟩
  rw [hm.route, hm.index]
  cases route with
  | nil => exact .inl rfl
  | cons name names => exact .inr (Nat.succ_pos _)

theorem exists_ofScenario_truck {route : List String} {tag : String} {cycle : Cycle}
    (hroute : ∀ name ∈ route, name ∈ Route.haul.waypoints)
    (hcycle : Cycle.ofTag? tag = some cycle) (wait : α) :
    ∃ f, (ofScenario (.lone (.truck route tag wait))).run = .ok (.ok f) := by
  have hm := VehicleSetup.truck_describes hcycle route wait
  rw [← layout_lone (.truck route tag wait)] at hm
  exact ⟨_, ofScenario_truck rfl (layout_lone _) hroute hm⟩

end Fleet

end Truck

end PitFleet
