import PitFleet.Proofs.Fleet.Validation
import PitFleet.Proofs.Fleet.Waypoints

/-!
# No scenario stops the program

Whatever a scenario holds, it is answered by a fleet or an error, and the fleet can be run and looked
at for ever. Where the program could stop, it is kept from it by what every reached state has: the
vehicles have the figures of their categories, so that no setter is without a value to take; an index
is that of a waypoint before it goes on, so that it stays a word (`InWord`); and the vehicles after
each one are a part of the fleet (`pairsBySlices_eq`).
-/

namespace PitFleet

open Navigation

section Slices

variable {τ : Type}

/-- The elements from a place on; a place beyond the end has none. -/
def slice? (l : List τ) (k : ℕ) : Option (List τ) :=
  if k ≤ l.length then some (l.drop k) else none

/-- The element with every one in the slice after its place. -/
def pairsFrom? (l : List τ) (p : τ × ℕ) : Option (List (τ × τ)) :=
  (slice? l (p.2 + 1)).map (·.map (p.1, ·))

/-- Every element with every later one, by the slices after the places. -/
def pairsBySlices (l : List τ) : Option (List (τ × τ)) :=
  (l.zipIdx.mapM (pairsFrom? l)).map List.flatten

theorem slice?_append (before after : List τ) (x : τ) :
    slice? (before ++ x :: after) (before.length + 1) = some after := by
  have hle : before.length + 1 ≤ (before ++ x :: after).length := by
    simp only [List.length_append, List.length_cons]
    omega
  have hdrop : (before ++ x :: after).drop (before.length + 1) = after := by
    rw [← List.drop_drop, List.drop_left]
    rfl
  rw [slice?, if_pos hle, hdrop]

theorem mapM_pairsFrom? : ∀ (after before : List τ), ∃ parts,
    (after.zipIdx before.length).mapM (pairsFrom? (before ++ after)) = some parts
      ∧ parts.flatten = orderedPairs after
  | [], _ => ⟨[], rfl, rfl⟩
  | x :: after, before => by
    obtain ⟨parts, hparts, hflatten⟩ := mapM_pairsFrom? after (before ++ [x])
    rw [List.length_append, List.append_assoc] at hparts
    have hx : pairsFrom? (before ++ x :: after) (x, before.length) = some (after.map (x, ·)) := by
      rw [pairsFrom?, slice?_append]
      rfl
    refine ⟨after.map (x, ·) :: parts, ?_, ?_⟩
    · rw [List.zipIdx_cons, List.mapM_cons, hx, Option.bind_eq_bind, Option.bind_some]
      rw [List.singleton_append, List.length_singleton] at hparts
      rw [hparts]
      rfl
    · rw [List.flatten_cons, hflatten]
      rfl

/-- No slice is out of range. -/
theorem pairsBySlices_eq (l : List τ) : pairsBySlices l = some (orderedPairs l) := by
  obtain ⟨parts, hparts, hflatten⟩ := mapM_pairsFrom? l []
  rw [pairsBySlices, ← hflatten]
  exact congrArg (Option.map List.flatten) hparts

end Slices

variable {α : Type} [Scalar α]

namespace Navigation

/-- The index is a word, and so is the next one as long as a waypoint is at this one. -/
structure InWord (n : Navigation α) : Prop where
  index : n.index < UInt64.size
  next : n.current?.isSome = true → n.index + 1 < UInt64.size

/-- A navigation whose routes can be counted by words. -/
structure Countable (n : Navigation α) : Prop where
  route : n.route.length < UInt64.size
  haulRoute : n.haulRoute.length < UInt64.size
  index : n.index < UInt64.size

variable {layout : Layout α} {dt : α} {v v' : Vehicle α} {n n' : Navigation α}

omit [Scalar α] in
theorem Countable.inWord (h : n.Countable) : n.InWord where
  index := h.index
  next hsome := by
    obtain ⟨name, hname⟩ := Option.isSome_iff_exists.1 hsome
    have hlt := Route.lt_length_of_get? hname
    have hroute := h.route
    omega

/-- An index goes on from a waypoint to the length of the route at most. -/
theorem Move.countable (h : Move layout dt v n v' n') (hn : n.Countable) : n'.Countable := by
  obtain ⟨hroute, hhaul, hindex⟩ := hn
  have hone : 1 < UInt64.size := by decide
  cases h with
  | waits | rests | holds | drives => exact ⟨hroute, hhaul, hindex⟩
  | hauls => exact ⟨hhaul, hhaul, hone⟩
  | returns =>
    refine ⟨?_, hhaul, hone⟩
    show n.haulRoute.reversed.length < _
    rwa [Route.length_reversed]
  | passes _ hn | strays _ hn => exact ⟨hroute, hhaul, (index_onward_of_some hn).trans hroute⟩
  | laps => exact ⟨hroute, hhaul, Nat.zero_lt_of_lt hone⟩
  | dumps ha hn | loads ha hn | stops ha hn =>
    exact ⟨hroute, hhaul, (index_onward_of_none ha hn).trans_lt hroute⟩

end Navigation

namespace Member

variable {layout : Layout α} {dt : α} {m m' : Member α}

theorem Part.countable (h : Part layout dt m m') (hm : m.navigation.Countable) :
    m'.navigation.Countable := by
  cases h with
  | still | coasts => exact hm
  | steers _ _ hmove => exact hmove.countable hm

theorem run_countable (hb : m.vehicle.spec.Bounded) (hm : m.navigation.Countable) (dts : List α) :
    (m.run layout dts).navigation.Countable :=
  (run_of_next (P := fun m => m.navigation.Countable) (fun _ _ _ hm h => h.countable hm) dts hb hm).2

theorem run_spec (hb : m.vehicle.spec.Bounded) (hm : m.vehicle.spec = m.vehicle.category.spec)
    (dts : List α) :
    (m.run layout dts).vehicle.spec = (m.run layout dts).vehicle.category.spec := by
  refine (run_of_next (P := fun m => m.vehicle.spec = m.vehicle.category.spec) ?_ dts hb hm).2
  intro m m' dt hm hpart
  rw [hpart.sameKind.spec, hpart.sameKind.category, hm]

end Member

namespace VehicleSetup

variable {layout : Layout α} {t : VehicleSetup α} {m : Member α}

theorem Describes.countable (h : t.Describes layout m) (ht : t.route.length < UInt64.size) :
    m.navigation.Countable where
  route := by rwa [h.route]
  haulRoute := by rwa [h.length_haulRoute, h.route]
  index := by
    rw [h.index]
    exact t.waypointIndex.toNat_lt_size

theorem Describes.spec (h : t.Describes layout m) :
    m.vehicle.spec = m.vehicle.category.spec := by
  cases h with
  | @mk category cycle start =>
    have hkind := sameKind_turn layout t (t.placed category cycle start)
      (t.navigation category cycle)
    show (t.turn layout _ _).spec = (t.turn layout _ _).category.spec
    rw [hkind.spec, hkind.category]
    rfl

end VehicleSetup

namespace Fleet

/-- The alerts, with the vehicles after each one taken as a slice of the fleet. -/
def alertsBySlices (f : Fleet α) (now : Int64) : Option (List (CollisionAlert α)) :=
  (pairsBySlices (f.vehicles.map Vehicle.track)).map
    (·.filterMap fun (a, b) => CollisionAlert.ofPair? now a b)

theorem alertsBySlices_eq (f : Fleet α) (now : Int64) :
    f.alertsBySlices now = some (f.alerts now) := by
  rw [alertsBySlices, pairsBySlices_eq]
  rfl

variable [OrderedScalar α]

theorem exists_run_ofScenario (s : Scenario α) : ∃ r, (ofScenario s).run = .ok r := by
  rcases allValid_or_firstRejected s.layout s.vehicles [] with h | ⟨e, h⟩
  · obtain ⟨f, hf⟩ := ofScenario_of_allValid h
    exact ⟨_, hf⟩
  · exact ⟨_, addSetups_of_firstRejected (new_consists s.layout) h⟩

/-- Every scenario is answered, and the fleet that it describes can be run by any steps. In every
state that it reaches the bounds of the setters are in order, the index of a vehicle whose route is
no longer than words can count is a word and goes on to a word, and no slice is out of range. -/
theorem faultless_of_scenario (s : Scenario α) : (∃ r, (ofScenario s).run = .ok r)
    ∧ ∀ f, (ofScenario s).run = .ok (.ok f) → ∀ dts, ∃ g, f.updates dts = .ok g
      ∧ g.vehicles.length = s.vehicles.length
      ∧ (∀ v ∈ g.vehicles, v.spec = v.category.spec ∧ v.spec.Bounded)
      ∧ (∀ i t, s.vehicles[i]? = some t → t.route.length < UInt64.size →
        ∃ m, g.member? i = some m ∧ m.navigation.InWord)
      ∧ ∀ now, g.alertsBySlices now = some (g.alerts now) := by
  refine ⟨exists_run_ofScenario s, fun f hf dts => ?_⟩
  obtain ⟨ms, hlayout, hc, hall⟩ := ofScenario_consists hf
  obtain ⟨g, hg, -, hcg⟩ := updates_consists dts hc
  refine ⟨g, hg, ?_, fun v hv => ?_, fun i t ht hlength => ?_, g.alertsBySlices_eq⟩
  · rw [hcg.vehicles, List.length_map, List.length_map, hall.length_eq]
  · rw [hcg.vehicles, List.map_map] at hv
    obtain ⟨m, hm, rfl⟩ := List.mem_map.1 hv
    obtain ⟨t, hdesc⟩ := VehicleSetup.describes_of_mem hall hm
    refine ⟨Member.run_spec hdesc.bounded hdesc.spec dts, ?_⟩
    exact (Member.run_of_next (P := fun _ => True) (fun _ _ _ _ _ => trivial) dts hdesc.bounded
      trivial).1
  · obtain ⟨ms', m, -, hc', hm, hdesc⟩ := exists_describes hf ht
    obtain ⟨g', hg', -, -, hgm⟩ := hc'.run hm dts
    obtain rfl : g' = g := Except.ok.inj (hg'.symm.trans hg)
    exact ⟨_, hgm, (Member.run_countable hdesc.bounded (hdesc.countable hlength) dts).inWord⟩

section Stranded

/-- A truck on no route, its index the last word. -/
def stranded (speed : α) : VehicleSetup α :=
  { VehicleSetup.truck [] "loading" speed with
    waypointIndex := -1
    targetSpeed := speed
    speed := speed }

theorem exists_ofScenario_stranded (speed : α) :
    ∃ f, (ofScenario (.lone (stranded speed))).run = .ok (.ok f) := by
  obtain ⟨hvalid, -⟩ := allValid_cons.1 (allValid_truck speed)
  refine ofScenario_of_allValid ?_
  rw [layout_lone]
  exact allValid_cons.2 ⟨⟨⟨hvalid.category, hvalid.cycle, hvalid.start⟩, hvalid.fresh, hvalid.route,
    .inl rfl⟩, allValid_nil⟩

/-- In doubles, with speeds that are no numbers, over steps of which one is none. -/
theorem faultless_of_scenario_stranded :
    ∃ f, (ofScenario (.lone (stranded (0.0 / 0.0 : Float)))).run = .ok (.ok f)
      ∧ ∃ g, f.updates [1.0, 0.0 / 0.0, 0.5] = .ok g ∧ g.vehicles.length = 1
        ∧ (∃ m, g.member? 0 = some m ∧ m.navigation.InWord)
        ∧ g.alertsBySlices 0 = some (g.alerts 0) := by
  obtain ⟨-, hrun⟩ := faultless_of_scenario (.lone (stranded (0.0 / 0.0 : Float)))
  obtain ⟨f, hf⟩ := exists_ofScenario_stranded (0.0 / 0.0 : Float)
  obtain ⟨g, hg, hlength, -, hindex, halerts⟩ := hrun f hf [1.0, 0.0 / 0.0, 0.5]
  have hroute : (stranded (0.0 / 0.0 : Float)).route.length < UInt64.size := by decide
  exact ⟨f, hf, g, hg, hlength, hindex 0 _ rfl hroute, halerts 0⟩

end Stranded

end Fleet

end PitFleet
