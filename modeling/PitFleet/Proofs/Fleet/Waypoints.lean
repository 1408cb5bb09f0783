import PitFleet.Proofs.Fleet.HaulCycle

/-!
# Waypoint after waypoint

The index of the current waypoint goes past the route at its end only, where a haul truck stays
until its waiting time is over, and a light vehicle starts again at once. The route that a vehicle
changes to is as long as the one that it leaves, so that the index stays within it (`OnWaypoints`).
But for that change each update leaves the index or moves it on by one (`Progress`).
-/

namespace PitFleet

open Navigation

namespace Route

theorem lt_length_of_get? {r : Route} {i : ℕ} {name : String} (h : r.get? i = some name) :
    i < r.length :=
  (List.getElem?_eq_some_iff.1 h).1

theorem length_le_of_get? {r : Route} {i : ℕ} (h : r.get? i = none) : r.length ≤ i :=
  List.getElem?_eq_none_iff.1 h

theorem mem_of_get? {r : Route} {i : ℕ} {name : String} (h : r.get? i = some name) :
    name ∈ r.waypoints :=
  List.mem_of_getElem? h

theorem length_reversed (r : Route) : r.reversed.length = r.length :=
  List.length_reverse

end Route

variable {α : Type} [Scalar α]

/-- The route has two waypoints or more, all of which the layout knows, and the index is that of
one of them, unless a haul truck is at the end. -/
structure OnWaypoints (layout : Layout α) (v : Vehicle α) (n : Navigation α) : Prop where
  two_le : 2 ≤ n.route.length
  haulLength : n.haulRoute.length = n.route.length
  known : ∀ name ∈ n.route.waypoints, layout.contains name = true
  haulKnown : ∀ name ∈ n.haulRoute.waypoints, layout.contains name = true
  index_le : n.index ≤ n.route.length
  ended : n.index = n.route.length → v.category = .haulTruck
    ∧ (v.cycle = .idle ∨ v.cycle = .loading ∨ v.cycle = .dumping)

/-- The waiting time is over and the vehicle sets out, loaded or empty. -/
structure SetsOut (dt : α) (v : Vehicle α) (n : Navigation α) (v' : Vehicle α) : Prop where
  timeOver : n.TimeOver dt
  cycle : (v.cycle = .loading ∧ v'.cycle = .hauling) ∨ (v.cycle = .dumping ∧ v'.cycle = .returning)

/-- The route stays, and the index stays or goes on by one, for a light vehicle round and round. -/
def Progress (v : Vehicle α) (n n' : Navigation α) : Prop :=
  n'.route = n.route ∧ (n'.index = n.index
    ∨ n'.index = if v.category = .lightVehicle then (n.index + 1) % n.route.length else n.index + 1)

variable {layout : Layout α} {dt : α} {v v' : Vehicle α} {n n' : Navigation α}

namespace OnWaypoints

variable (h : OnWaypoints layout v n)
include h

theorem advance (dt : α) : OnWaypoints layout (v.advance dt) n := by
  obtain ⟨h₁, h₂, h₃, h₄, h₅, hended⟩ := h
  refine ⟨h₁, h₂, h₃, h₄, h₅, ?_⟩
  rwa [Vehicle.cycle_advance, (Vehicle.sameKind_advance v dt).category]

omit [Scalar α] in
theorem exists_current (hlt : n.index < n.route.length) :
    ∃ name, n.current? = some name ∧ layout.contains name = true := by
  have hget : n.current? = some n.route.waypoints[n.index] := List.getElem?_eq_getElem hlt
  exact ⟨_, hget, h.known _ (Route.mem_of_get? hget)⟩

end OnWaypoints

namespace Navigation

omit [Scalar α] in
theorem index_lt_of_target? {target : Position α} (h : n.target? layout = some target) :
    n.index < n.route.length := by
  obtain ⟨name, hname, -⟩ := Option.bind_eq_some_iff.1 h
  exact Route.lt_length_of_get? hname

/-- Past its last waypoint the index is the length of the route. -/
theorem index_onward_of_none {target : Position α} (ha : Arrives layout v n target)
    (hn : n.onward.current? = none) : n.index + 1 = n.route.length := by
  have hlt := index_lt_of_target? ha.known
  have hle : n.route.length ≤ n.index + 1 := Route.length_le_of_get? hn
  omega

omit [Scalar α] in
theorem index_onward_of_some {name : String} (hn : n.onward.current? = some name) :
    n.index + 1 < n.route.length :=
  Route.lt_length_of_get? hn

namespace Move

theorem onWaypoints (h : Move layout dt v n v' n') (hs : Fleet.Steers v)
    (hw : OnWaypoints layout v n) : OnWaypoints layout v' n' := by
  obtain ⟨htwo, hlen, hknown, hhaul, hle, hended⟩ := hw
  have htruck (hv : v.category ≠ .lightVehicle) : v.category = .haulTruck := by
    have hdigs := hs.2
    cases hc : v.category <;> simp_all
  cases h with
  | waits | rests | holds | drives => exact ⟨htwo, hlen, hknown, hhaul, hle, hended⟩
  | hauls =>
    refine ⟨hlen ▸ htwo, rfl, hhaul, hhaul, ?_, ?_⟩ <;> dsimp only <;> omega
  | returns =>
    have hback := n.haulRoute.length_reversed
    refine ⟨?_, hback.symm, ?_, hhaul, ?_, ?_⟩
    · dsimp only
      omega
    · intro name hname
      exact hhaul name (List.mem_reverse.1 hname)
    · dsimp only
      omega
    · dsimp only
      omega
  | passes _ hn | strays _ hn =>
    have hlt := index_onward_of_some hn
    exact ⟨htwo, hlen, hknown, hhaul, hlt.le, fun heq => absurd heq hlt.ne⟩
  | laps =>
    exact ⟨htwo, hlen, hknown, hhaul, Nat.zero_le _, fun heq => by dsimp only at heq; omega⟩
  | dumps ha hn hv =>
    exact ⟨htwo, hlen, hknown, hhaul, (index_onward_of_none ha hn).le,
      fun _ => ⟨htruck hv, .inr (.inr rfl)⟩⟩
  | loads ha hn hv =>
    exact ⟨htwo, hlen, hknown, hhaul, (index_onward_of_none ha hn).le,
      fun _ => ⟨htruck hv, .inr (.inl rfl)⟩⟩
  | stops ha hn hv hh hr =>
    refine ⟨htwo, hlen, hknown, hhaul, (index_onward_of_none ha hn).le, fun _ => ⟨htruck hv, ?_⟩⟩
    show v.cycle = .idle ∨ v.cycle = .loading ∨ v.cycle = .dumping
    cases hc : v.cycle <;> simp_all

theorem progress (h : Move layout dt v n v' n') (hset : ¬ SetsOut dt v n v') :
    Progress v n n' := by
  cases h with
  | waits | rests | holds | drives => exact ⟨rfl, .inl rfl⟩
  | hauls ht hc => exact absurd ⟨ht, .inl ⟨hc, rfl⟩⟩ hset
  | returns ht hc => exact absurd ⟨ht, .inr ⟨hc, rfl⟩⟩ hset
  | passes _ hn | strays _ hn =>
    refine ⟨rfl, .inr ?_⟩
    split
    · exact (Nat.mod_eq_of_lt (index_onward_of_some hn)).symm
    · rfl
  | laps ha hn hc =>
    refine ⟨rfl, .inr ?_⟩
    rw [if_pos hc, index_onward_of_none ha hn, Nat.mod_self]
  | dumps _ _ hv | loads _ _ hv | stops _ _ hv => exact ⟨rfl, .inr (if_neg hv).symm⟩

end Move

end Navigation

namespace Member

variable {m m' : Member α}

/-- The vehicles that are to have a waypoint to drive to. -/
def UnderWay (m : Member α) : Prop :=
  m.vehicle.active = true ∧ (m.vehicle.category = .lightVehicle
    ∨ m.vehicle.category = .haulTruck ∧ (m.vehicle.cycle = .hauling ∨ m.vehicle.cycle = .returning)
      ∧ m.navigation.waiting = false)

omit [Scalar α] in
theorem exists_current_of_underWay (hw : OnWaypoints layout m.vehicle m.navigation)
    (h : m.UnderWay) : ∃ name, m.navigation.current? = some name ∧ layout.contains name = true := by
  refine hw.exists_current (lt_of_le_of_ne hw.index_le fun hc => ?_)
  obtain ⟨htruck, hcycle⟩ := hw.ended hc
  rcases h.2 with hlight | ⟨-, hdrives, -⟩
  · rw [htruck] at hlight
    cases hlight
  · rcases hdrives with hc | hc <;> rw [hc] at hcycle <;> simp at hcycle

theorem Part.onWaypoints (h : Part layout dt m m')
    (hw : OnWaypoints layout m.vehicle m.navigation) :
    OnWaypoints layout m'.vehicle m'.navigation := by
  cases h with
  | still => exact hw
  | steers _ hs hmove => exact (hmove.onWaypoints hs hw).advance dt
  | coasts => exact hw.advance dt

theorem Part.progress (h : Part layout dt m m')
    (hset : ¬ SetsOut dt m.vehicle m.navigation m'.vehicle) :
    Progress m.vehicle m.navigation m'.navigation := by
  cases h with
  | still | coasts => exact ⟨rfl, .inl rfl⟩
  | steers _ _ hmove =>
    refine hmove.progress fun hc => hset ⟨hc.timeOver, ?_⟩
    rw [Vehicle.cycle_advance]
    exact hc.cycle

theorem run_onWaypoints (hb : m.vehicle.spec.Bounded)
    (hw : OnWaypoints layout m.vehicle m.navigation) (dts : List α) :
    OnWaypoints layout (m.run layout dts).vehicle (m.run layout dts).navigation :=
  (run_of_next (fun _ _ _ hw h => h.onWaypoints hw) dts hb hw).2

end Member

namespace Fleet

/-- Every navigation has been checked against the layout. -/
def Checked (f : Fleet α) : Prop :=
  ∀ id n, f.navigation.get? id = some n → unknownWaypoint? f.layout n = none
    ∧ (n.route.isEmpty = true ∨ n.index < n.route.length)

omit [Scalar α] in
theorem new_checked (layout : Layout α) : (new layout).Checked := by
  intro id n h
  cases h

omit [Scalar α] in
theorem Checked.push {f : Fleet α} (hf : f.Checked) (ha : f.Admits v n) : (f.push v n).Checked := by
  intro id n' h
  change (f.navigation.insert v.id n).get? id = some n' at h
  rw [Registry.get?_insert] at h
  split at h
  · obtain rfl := Option.some.inj h
    exact ⟨ha.known, ha.onRoute⟩
  · exact hf id n' h

omit [Scalar α] in
theorem contains_of_unknownWaypoint? (h : unknownWaypoint? layout n = none) :
    (∀ name ∈ n.route.waypoints, layout.contains name = true)
      ∧ ∀ name ∈ n.haulRoute.waypoints, layout.contains name = true := by
  rw [unknownWaypoint?, List.find?_eq_none] at h
  simp only [List.mem_append, Bool.not_eq_true', Bool.not_eq_false] at h
  exact ⟨fun name hname => h name (.inl hname), fun name hname => h name (.inr hname)⟩

variable [OrderedScalar α]

theorem Checked.addSetups : ∀ (ss : List (VehicleSetup α)) {f g : Fleet α}, f.Checked →
    (f.addSetups ss).run = .ok (.ok g) → g.Checked
  | [], f, g, hf, hg => by
    obtain rfl : f = g := Except.ok.inj (Except.ok.inj hg)
    exact hf
  | s :: ss, f, g, hf, hg => by
    obtain ⟨f', hs, hss⟩ := addSetups_cons_ok hg
    obtain ⟨m, -, hadmits, rfl⟩ := addSetup_ok hs
    exact Checked.addSetups ss (hf.push hadmits) hss

omit [OrderedScalar α] in
theorem onWaypoints_of_describes {s : VehicleSetup α} {m : Member α} (hs : s.Describes layout m)
    (hknown : unknownWaypoint? layout m.navigation = none)
    (hlt : m.navigation.index < m.navigation.route.length)
    (htwo : 2 ≤ m.navigation.route.length) : OnWaypoints layout m.vehicle m.navigation := by
  obtain ⟨hroute, hhaul⟩ := contains_of_unknownWaypoint? hknown
  exact ⟨htwo, hs.length_haulRoute, hroute, hhaul, hlt.le, fun hc => absurd hc hlt.ne⟩

/-- In every state that a scenario's fleet reaches, each vehicle with two waypoints or more is on
its waypoints, and the update after it skips none of them. -/
theorem waypoints_of_scenario {s : Scenario α} {f : Fleet α}
    (hf : (ofScenario s).run = .ok (.ok f)) {i : ℕ} {t : VehicleSetup α}
    (ht : s.vehicles[i]? = some t) (htwo : 2 ≤ t.route.length) (dts : List α) (dt : α) :
    ∃ g h m m', f.updates dts = .ok g ∧ g.layout = s.layout ∧ g.update dt = .ok h
      ∧ g.member? i = some m ∧ h.member? i = some m'
      ∧ OnWaypoints s.layout m.vehicle m.navigation
      ∧ (m.UnderWay → ∃ name, m.navigation.current? = some name ∧ s.layout.contains name = true)
      ∧ (¬ SetsOut dt m.vehicle m.navigation m'.vehicle →
        Progress m.vehicle m.navigation m'.navigation) := by
  obtain ⟨ms, m, hlayout, hc, hm, hdesc⟩ := exists_describes hf ht
  have hmem : m ∈ ms := List.mem_of_getElem? hm
  have hlength : m.navigation.route.length = t.route.length := by
    rw [hdesc.route]
    rfl
  have hchecked : f.Checked := (new_checked s.layout).addSetups s.vehicles hf
  obtain ⟨hknown, hroute⟩ := hchecked _ _ (hc.navigation m hmem)
  have hlt : m.navigation.index < m.navigation.route.length := by
    refine hroute.resolve_left fun hempty => ?_
    have hzero : m.navigation.route.length = 0 :=
      List.length_eq_zero_iff.2 (List.isEmpty_iff.1 hempty)
    omega
  rw [hlayout] at hknown
  have hstart := onWaypoints_of_describes hdesc hknown hlt (hlength ▸ htwo)
  obtain ⟨g, h, hg, hglayout, hh, hgm, hhm, hpart⟩ := hc.run_update hm dts dt
  rw [hlayout] at hglayout hgm hhm hpart
  have hon := Member.run_onWaypoints (hc.bounded m hmem) hstart dts
  exact ⟨g, h, _, _, hg, hglayout, hh, hgm, hhm, hon, Member.exists_current_of_underWay hon,
    hpart.progress⟩

/-- A truck in doubles that sets out after a second, over two seconds. -/
theorem waypoints_truck : ∃ f, (ofScenario (.lone (.truck ["PIT_LOAD_1", "RAMP_BOT"] "loading"
    (1.0 : Float)))).run = .ok (.ok f) ∧ ∃ g h m m', f.updates [1.0, 0.5] = .ok g
      ∧ g.layout = (.pit : Layout Float) ∧ g.update 0.5 = .ok h
      ∧ g.member? 0 = some m ∧ h.member? 0 = some m'
      ∧ OnWaypoints (.pit : Layout Float) m.vehicle m.navigation
      ∧ (m.UnderWay → ∃ name, m.navigation.current? = some name
        ∧ (.pit : Layout Float).contains name = true)
      ∧ (¬ SetsOut 0.5 m.vehicle m.navigation m'.vehicle →
        Progress m.vehicle m.navigation m'.navigation) := by
  have hroute : ∀ name ∈ ["PIT_LOAD_1", "RAMP_BOT"], name ∈ Route.haul.waypoints := by decide
  have hcycle : Cycle.ofTag? "loading" = some .loading := by decide
  obtain ⟨f, hf⟩ := exists_ofScenario_truck hroute hcycle (1.0 : Float)
  have hrun := waypoints_of_scenario hf (i := 0) rfl (le_refl 2) [1.0, 0.5] 0.5
  rw [layout_lone] at hrun
  exact ⟨f, hf, hrun⟩

end Fleet

end PitFleet
