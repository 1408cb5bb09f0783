import PitFleet.Proofs.Fleet.Joining

/-!
# Checking a scenario

A setup that is checked after vehicles of some names is valid or is rejected by the first check that
it fails (`VehicleSetup.valid_or_rejected`). A scenario describes a fleet when each of its setups is
valid after those before it (`addSetups_of_allValid`); otherwise its error is that of the first one
that is not (`addSetups_of_firstRejected`).
-/

namespace PitFleet

/-- Of the values that are entered under a name the last one is found. -/
theorem Registry.get?_ofList {β : Type} (es : List (String × β)) (key : String) :
    (ofList es).get? key = (es.reverse.find? (·.1 = key)).map (·.2) := by
  induction es using List.reverseRecOn with
  | nil => rfl
  | append_singleton es e ih =>
    have hlast : ofList (es ++ [e]) = (ofList es).insert e.1 e.2 := by
      rw [ofList, List.foldl_append]
      rfl
    rw [hlast, get?_insert, ih, List.reverse_append, List.reverse_singleton, List.singleton_append,
      List.find?_cons]
    by_cases hkey : e.1 = key
    · rw [if_pos hkey.symm, decide_eq_true hkey]
      rfl
    · rw [if_neg (Ne.symm hkey), decide_eq_false hkey]

variable {α : Type}

def Waypoint.position (w : Waypoint α) : Position α :=
  ⟨w.latitude, w.longitude, w.altitude⟩

/-- The last of the waypoints of this name. -/
def LastNamed (ws : List (Waypoint α)) (name : String) (w : Waypoint α) : Prop :=
  ∃ before after, ws = before ++ w :: after ∧ w.name = name ∧ ∀ other ∈ after, other.name ≠ name

theorem find?_reverse_eq_some_iff {ws : List (Waypoint α)} {name : String} {w : Waypoint α} :
    ws.reverse.find? (·.name = name) = some w ↔ LastNamed ws name w := by
  have hsplit (before after : List (Waypoint α)) :
      ws.reverse = after.reverse ++ w :: before.reverse ↔ ws = before ++ w :: after := by
    simp [List.reverse_eq_iff]
  simp only [List.find?_eq_some_iff_append, LastNamed, decide_eq_true_iff, Bool.not_eq_true',
    decide_eq_false_iff_not]
  constructor
  · rintro ⟨hname, after, before, hws, hafter⟩
    rw [← before.reverse_reverse, ← after.reverse_reverse, hsplit] at hws
    exact ⟨_, _, hws, hname, fun other hother => hafter other (List.mem_reverse.1 hother)⟩
  · rintro ⟨before, after, hws, hname, hafter⟩
    refine ⟨hname, after.reverse, before.reverse, (hsplit before after).2 hws, ?_⟩
    exact fun other hother => hafter other (List.mem_reverse.1 hother)

variable [Scalar α] {layout : Layout α} {earlier : List String}

theorem Scenario.get?_layout {s : Scenario α} (h : s.waypoints ≠ []) {name : String}
    {p : Position α} :
    s.layout.get? name = some p ↔ ∃ w, LastNamed s.waypoints name w ∧ w.position = p := by
  have hget : s.layout.get? name
      = (s.waypoints.reverse.find? (·.name = name)).map (·.position) := by
    rw [layout, if_neg (mt List.isEmpty_iff.1 h)]
    refine (Registry.get?_ofList _ name).trans ?_
    rw [← List.map_reverse, List.find?_map, Option.map_map]
    rfl
  rw [hget, Option.map_eq_some_iff]
  simp only [find?_reverse_eq_some_iff]

namespace VehicleSetup

/-- The tags and the start of a setup are known. -/
structure Readable (layout : Layout α) (s : VehicleSetup α) : Prop where
  category : (Category.ofTag? s.category).isSome = true
  cycle : ∀ tag, s.cycle = some tag → (Cycle.ofTag? tag).isSome = true
  start : layout.contains s.start = true

/-- A setup that passes every check after vehicles of these names. -/
structure Valid (layout : Layout α) (earlier : List String) (s : VehicleSetup α) : Prop
    extends Readable layout s where
  fresh : s.id ∉ earlier
  route : ∀ name ∈ s.route, layout.contains name = true
  index : s.route = [] ∨ s.waypointIndex.toNat < s.route.length

/-- A setup that fails a check, and what the first such check says. -/
inductive Rejected (layout : Layout α) (earlier : List String) (s : VehicleSetup α) :
    SetupError → Prop
  | category (h : Category.ofTag? s.category = none) :
      Rejected layout earlier s (.unknownCategory s.category)
  | cycle {tag : String} (hcategory : (Category.ofTag? s.category).isSome = true)
      (htag : s.cycle = some tag) (h : Cycle.ofTag? tag = none) :
      Rejected layout earlier s (.unknownCycle tag)
  | start (hcategory : (Category.ofTag? s.category).isSome = true)
      (hcycle : ∀ tag, s.cycle = some tag → (Cycle.ofTag? tag).isSome = true)
      (h : layout.contains s.start = false) : Rejected layout earlier s (.unknownWaypoint s.start)
  | name (readable : s.Readable layout) (h : s.id ∈ earlier) :
      Rejected layout earlier s (.duplicateVehicle s.id)
  | waypoint {name : String} (readable : s.Readable layout) (fresh : s.id ∉ earlier)
      (h : FirstUnknown layout s.route name) : Rejected layout earlier s (.unknownWaypoint name)
  | index (readable : s.Readable layout) (fresh : s.id ∉ earlier)
      (onMap : ∀ name ∈ s.route, layout.contains name = true) (hroute : s.route ≠ [])
      (h : s.route.length ≤ s.waypointIndex.toNat) :
      Rejected layout earlier s (.indexOutOfRange s.id s.waypointIndex.toNat s.route.length)

variable {s : VehicleSetup α} {m : Member α}

omit [Scalar α] in
theorem exists_readCategory (h : (Category.ofTag? s.category).isSome = true) :
    ∃ category, s.readCategory = .ok category := by
  obtain ⟨category, hcategory⟩ := Option.isSome_iff_exists.1 h
  exact ⟨category, by rw [readCategory, hcategory]⟩

omit [Scalar α] in
theorem exists_readCycle (h : ∀ tag, s.cycle = some tag → (Cycle.ofTag? tag).isSome = true) :
    ∃ cycle, s.readCycle = .ok cycle := by
  rw [readCycle]
  rcases htag : s.cycle with _ | tag
  · exact ⟨.idle, rfl⟩
  · obtain ⟨cycle, hcycle⟩ := Option.isSome_iff_exists.1 (h tag htag)
    exact ⟨cycle, by simp only [hcycle]⟩

theorem Readable.exists_describes (h : s.Readable layout) : ∃ m, s.Describes layout m := by
  obtain ⟨category, hcategory⟩ := exists_readCategory h.category
  obtain ⟨cycle, hcycle⟩ := exists_readCycle h.cycle
  obtain ⟨start, hstart⟩ := Option.isSome_iff_exists.1 h.start
  have hfound : s.findStart layout = .ok start := by rw [findStart, hstart]
  exact ⟨_, .mk hcategory hcycle hfound⟩

omit [Scalar α] in
theorem valid_or_rejected (layout : Layout α) (earlier : List String) (s : VehicleSetup α) :
    s.Valid layout earlier ∨ ∃ e, s.Rejected layout earlier e := by
  rcases hcategory : Category.ofTag? s.category with _ | category
  · exact .inr ⟨_, .category hcategory⟩
  have hcategory : (Category.ofTag? s.category).isSome = true := by rw [hcategory]; rfl
  by_cases hcycle : ∀ tag, s.cycle = some tag → (Cycle.ofTag? tag).isSome = true
  · rcases hstart : layout.contains s.start with _ | _
    · exact .inr ⟨_, .start hcategory hcycle hstart⟩
    have hreadable : s.Readable layout := ⟨hcategory, hcycle, hstart⟩
    by_cases hfresh : s.id ∈ earlier
    · exact .inr ⟨_, .name hreadable hfresh⟩
    rcases hroute : s.route.find? (!layout.contains ·) with _ | name
    · rw [List.find?_eq_none] at hroute
      simp only [Bool.not_eq_true', Bool.not_eq_false] at hroute
      by_cases hindex : s.route = [] ∨ s.waypointIndex.toNat < s.route.length
      · exact .inl ⟨hreadable, hfresh, hroute, hindex⟩
      · rw [not_or, not_lt] at hindex
        exact .inr ⟨_, .index hreadable hfresh hroute hindex.1 hindex.2⟩
    · exact .inr ⟨_, .waypoint hreadable hfresh (Fleet.find?_eq_some_iff_firstUnknown.1 hroute)⟩
  · simp only [not_forall, Bool.not_eq_true, Option.isSome_eq_false_iff,
      Option.isNone_iff_eq_none] at hcycle
    obtain ⟨tag, htag, hcycle⟩ := hcycle
    exact .inr ⟨_, .cycle hcategory htag hcycle⟩

theorem Valid.joinable (hs : s.Valid layout earlier) (h : s.Describes layout m) :
    Fleet.Joinable layout earlier m.vehicle m.navigation where
  fresh := by
    rw [h.id]
    exact hs.fresh
  onMap := by
    refine ⟨?_, fun name hname => hs.route name ((h.mem_haulRoute_iff name).1 hname)⟩
    rw [h.route]
    exact hs.route
  onRoute := by
    rw [h.route, h.index]
    exact hs.index

end VehicleSetup

namespace Fleet

open VehicleSetup

variable {f : Fleet α} {s : VehicleSetup α} {ss : List (VehicleSetup α)} {e : SetupError}

/-- Each setup is valid after the vehicles of these names and of the setups before it. -/
def AllValid (layout : Layout α) (earlier : List String) (ss : List (VehicleSetup α)) : Prop :=
  ∀ before s after, ss = before ++ s :: after →
    s.Valid layout (earlier ++ before.map (·.id))

/-- This is what the first setup that is not valid is told. -/
def FirstRejected (layout : Layout α) (earlier : List String) (ss : List (VehicleSetup α))
    (e : SetupError) : Prop :=
  ∃ before s after, ss = before ++ s :: after ∧ AllValid layout earlier before
    ∧ s.Rejected layout (earlier ++ before.map (·.id)) e

section Checks

omit [Scalar α]

theorem allValid_nil : AllValid layout earlier [] := by
  intro before s after hsplit
  simp at hsplit

theorem allValid_cons : AllValid layout earlier (s :: ss)
    ↔ s.Valid layout earlier ∧ AllValid layout (earlier ++ [s.id]) ss := by
  constructor
  · intro h
    refine ⟨?_, fun before t after hsplit => ?_⟩
    · have hs := h [] s ss rfl
      rwa [List.map_nil, List.append_nil] at hs
    · have ht := h (s :: before) t after (by rw [hsplit, List.cons_append])
      rwa [List.map_cons, List.append_cons] at ht
  · rintro ⟨hs, hss⟩ (_ | ⟨b, before⟩) t after hsplit
    · obtain ⟨rfl, rfl⟩ := List.cons.inj hsplit
      rwa [List.map_nil, List.append_nil]
    · obtain ⟨rfl, htail⟩ := List.cons.inj hsplit
      rw [List.map_cons, List.append_cons]
      exact hss before t after htail

theorem allValid_or_firstRejected (layout : Layout α) : ∀ (ss : List (VehicleSetup α))
    (earlier : List String), AllValid layout earlier ss ∨ ∃ e, FirstRejected layout earlier ss e
  | [], _ => .inl allValid_nil
  | s :: ss, earlier => by
    rcases valid_or_rejected layout earlier s with hs | ⟨e, hs⟩
    · rcases allValid_or_firstRejected layout ss (earlier ++ [s.id]) with
        hss | ⟨e, before, t, after, rfl, hbefore, ht⟩
      · exact .inl (allValid_cons.2 ⟨hs, hss⟩)
      · refine .inr ⟨e, s :: before, t, after, rfl, allValid_cons.2 ⟨hs, hbefore⟩, ?_⟩
        rwa [List.map_cons, List.append_cons]
    · refine .inr ⟨e, [], s, ss, rfl, allValid_nil, ?_⟩
      rwa [List.map_nil, List.append_nil]

end Checks

variable [OrderedScalar α]

theorem addSetup_of_valid (hkeys : f.navigation.keys.Perm (f.vehicles.map (·.id)))
    (h : s.Valid f.layout (f.vehicles.map (·.id))) :
    ∃ m, s.Describes f.layout m
      ∧ (f.addSetup s).run = .ok (.ok (f.push m.vehicle m.navigation)) := by
  obtain ⟨m, hm⟩ := h.toReadable.exists_describes
  exact ⟨m, hm, addSetup_of_describes hm (admits_of_joinable ((h.joinable hm).perm hkeys.symm))⟩

theorem addSetup_of_refused {m : Member α}
    (hkeys : f.navigation.keys.Perm (f.vehicles.map (·.id))) (hm : s.Describes f.layout m)
    (h : Refused f.layout (f.vehicles.map (·.id)) m.vehicle m.navigation e) :
    (f.addSetup s).run = .ok (.error e) := by
  rw [addSetup_eq hm, add_of_refused (h.perm hkeys.symm)]

theorem addSetup_of_rejected (hkeys : f.navigation.keys.Perm (f.vehicles.map (·.id)))
    (h : s.Rejected f.layout (f.vehicles.map (·.id)) e) :
    (f.addSetup s).run = .ok (.error e) := by
  cases h with
  | category h =>
    have hread : s.readCategory = .error (.unknownCategory s.category) := by rw [readCategory, h]
    unfold addSetup
    rw [hread]
    rfl
  | @cycle tag hcategory htag h =>
    obtain ⟨category, hcategory⟩ := exists_readCategory hcategory
    have hread : s.readCycle = .error (.unknownCycle tag) := by
      rw [readCycle, htag]
      simp only [h]
    unfold addSetup
    rw [hcategory, hread]
    rfl
  | start hcategory hcycle h =>
    obtain ⟨category, hcategory⟩ := exists_readCategory hcategory
    obtain ⟨cycle, hcycle⟩ := exists_readCycle hcycle
    have hread : s.findStart f.layout = .error (.unknownWaypoint s.start) := by
      rw [Registry.contains, Option.isSome_eq_false_iff, Option.isNone_iff_eq_none] at h
      rw [findStart, h]
    unfold addSetup
    rw [hcategory, hcycle, hread]
    rfl
  -- A setup that can be read describes a member, which then asks to join.
  | name readable h =>
    obtain ⟨m, hm⟩ := readable.exists_describes
    rw [← hm.id] at h ⊢
    exact addSetup_of_refused hkeys hm (.name h)
  | waypoint readable fresh h =>
    obtain ⟨m, hm⟩ := readable.exists_describes
    refine addSetup_of_refused hkeys hm (.waypoint (hm.id ▸ fresh) ?_)
    rw [hm.route]
    exact h.append _
  | index readable fresh onMap hroute h =>
    obtain ⟨m, hm⟩ := readable.exists_describes
    have hmap : OnMap f.layout m.navigation := by
      refine ⟨?_, fun name hname => onMap name ((hm.mem_haulRoute_iff name).1 hname)⟩
      rw [hm.route]
      exact onMap
    have hrefused := Refused.index (hm.id ▸ fresh) hmap (by rwa [hm.route])
      (by rwa [hm.route, hm.index])
    rw [hm.id, hm.index, hm.route] at hrefused
    exact addSetup_of_refused hkeys hm hrefused

omit [OrderedScalar α] in
theorem addSetups_append : ∀ (ss ts : List (VehicleSetup α)) (f : Fleet α),
    f.addSetups (ss ++ ts) = (do (← f.addSetups ss).addSetups ts)
  | [], ts, f => by rw [List.nil_append, addSetups, pure_bind]
  | s :: ss, ts, f => by
    simp only [List.cons_append, addSetups, addSetups_append ss ts, bind_assoc]

/-- Setups that are valid one after the other all join. -/
theorem addSetups_of_allValid : ∀ (ss : List (VehicleSetup α)) {f : Fleet α} {ms : List (Member α)},
    f.Consists ms → AllValid f.layout (f.vehicles.map (·.id)) ss →
      ∃ g ms', (f.addSetups ss).run = .ok (.ok g) ∧ g.layout = f.layout ∧ g.Consists ms'
        ∧ g.vehicles.map (·.id) = f.vehicles.map (·.id) ++ ss.map (·.id)
  | [], f, ms, hc, _ => ⟨f, ms, rfl, rfl, hc, (List.append_nil _).symm⟩
  | s :: ss, f, ms, hc, h => by
    obtain ⟨hs, hss⟩ := allValid_cons.1 h
    obtain ⟨m, hm, hadd⟩ := addSetup_of_valid hc.keys_perm hs
    have hfresh : m.vehicle.id ∉ f.navigation.keys :=
      ((hs.joinable hm).perm hc.keys_perm.symm).fresh
    have hids : (f.push m.vehicle m.navigation).vehicles.map (·.id)
        = f.vehicles.map (·.id) ++ [s.id] := by
      rw [← hm.id]
      exact List.map_append
    rw [← hids] at hss
    obtain ⟨g, ms', hg, hlayout, hcg, hgids⟩ :=
      addSetups_of_allValid ss (push_consists hc hfresh hm.bounded) hss
    refine ⟨g, ms', ?_, hlayout, hcg, ?_⟩
    · rw [addSetups, ExceptT.run_bind, hadd]
      exact hg
    · rw [hgids, hids, List.append_assoc]
      rfl

/-- Nothing after the first setup that is not valid is looked at. -/
theorem addSetups_of_firstRejected {ms : List (Member α)} (hc : f.Consists ms)
    (h : FirstRejected f.layout (f.vehicles.map (·.id)) ss e) :
    (f.addSetups ss).run = .ok (.error e) := by
  obtain ⟨before, s, after, rfl, hbefore, hs⟩ := h
  obtain ⟨g, ms', hg, hlayout, hcg, hids⟩ := addSetups_of_allValid before hc hbefore
  rw [← hids, ← hlayout] at hs
  have hrejected := addSetup_of_rejected hcg.keys_perm hs
  rw [addSetups_append, ExceptT.run_bind, hg]
  show ((g.addSetups (s :: after)).run : Except Fault (Except SetupError (Fleet α))) = _
  rw [addSetups, ExceptT.run_bind, hrejected]
  rfl

theorem ofScenario_of_allValid {s : Scenario α} (h : AllValid s.layout [] s.vehicles) :
    ∃ f, (ofScenario s).run = .ok (.ok f) := by
  obtain ⟨f, -, hf, -⟩ := addSetups_of_allValid s.vehicles (new_consists s.layout) h
  exact ⟨f, hf⟩

/-- A scenario describes a fleet exactly when every setup is valid after those before it. Each
vehicle is then where its setup lets it start. Otherwise the error is what the first setup that is
not valid is told. Its map is the built-in pit unless it has waypoints of its own. -/
theorem ofScenario_exact (s : Scenario α) :
    (s.waypoints = [] → s.layout = .pit)
      ∧ (s.waypoints ≠ [] → ∀ name p, s.layout.get? name = some p
        ↔ ∃ w, LastNamed s.waypoints name w ∧ w.position = p)
      ∧ ((∃ f, (ofScenario s).run = .ok (.ok f)) ↔ AllValid s.layout [] s.vehicles)
      ∧ (∀ f, (ofScenario s).run = .ok (.ok f) → f.layout = s.layout
        ∧ List.Forall₂ (fun t v => v.id = t.id ∧ s.layout.get? t.start = some v.position)
          s.vehicles f.vehicles)
      ∧ (∀ e, (ofScenario s).run = .ok (.error e) ↔ FirstRejected s.layout [] s.vehicles e)
      ∧ (AllValid s.layout [] s.vehicles ∨ ∃ e, FirstRejected s.layout [] s.vehicles e) := by
  have hstart := new_consists s.layout
  have hrejected {e : SetupError} (h : FirstRejected s.layout [] s.vehicles e) :
      (ofScenario s).run = .ok (.error e) := addSetups_of_firstRejected hstart h
  have htotal := allValid_or_firstRejected s.layout s.vehicles []
  refine ⟨fun h => ?_, fun h name p => Scenario.get?_layout h, ⟨fun ⟨f, hf⟩ => ?_,
    ofScenario_of_allValid⟩, fun f hf => ?_, fun e => ⟨fun he => ?_, hrejected⟩, htotal⟩
  · rw [Scenario.layout, h]
    rfl
  · rcases htotal with h | ⟨e, h⟩
    · exact h
    · rw [hrejected h] at hf
      cases hf
  · obtain ⟨ms, hlayout, hc, hall⟩ := ofScenario_consists hf
    refine ⟨hlayout, ?_⟩
    rw [hc.vehicles, List.forall₂_map_right_iff]
    exact hall.imp fun t m hm => ⟨hm.id.symm ▸ rfl, hm.position⟩
  · rcases htotal with h | ⟨e', h⟩
    · obtain ⟨f, hf⟩ := ofScenario_of_allValid h
      rw [hf] at he
      cases he
    · rw [hrejected h] at he
      cases he
      exact h

section Twins

omit [OrderedScalar α] in
theorem truck_readable (wait : α) :
    (VehicleSetup.truck [] "loading" wait).Readable (.pit : Layout α) where
  category := by
    show (Category.ofTag? "haul_truck").isSome = true
    decide
  cycle := by
    rintro tag htag
    obtain rfl : "loading" = tag := Option.some.inj htag
    decide
  start := Layout.contains_pit_of_mem_haul (.head _)

omit [OrderedScalar α] in
theorem allValid_truck (wait : α) :
    AllValid (.pit : Layout α) [] [.truck [] "loading" wait] := by
  refine allValid_cons.2 ⟨⟨truck_readable wait, List.not_mem_nil, ?_, .inl rfl⟩, allValid_nil⟩
  exact fun _ hname => absurd hname List.not_mem_nil

/-- Two setups of one name. -/
def twins (wait : α) : Scenario α :=
  ⟨none, [], [.truck [] "loading" wait, .truck [] "loading" wait]⟩

omit [OrderedScalar α] in
theorem firstRejected_twins (wait : α) :
    FirstRejected (.pit : Layout α) [] (twins wait).vehicles (.duplicateVehicle "HT-1") :=
  ⟨[.truck [] "loading" wait], .truck [] "loading" wait, [], rfl, allValid_truck wait,
    .name (truck_readable wait) (.head _)⟩

/-- In doubles: of two setups of one name the second is told that its name is taken, and the first
without it is a fleet. -/
theorem ofScenario_exact_twins :
    (ofScenario (twins (0.0 : Float))).run = .ok (.error (.duplicateVehicle "HT-1"))
      ∧ ∃ f, (ofScenario (.lone (.truck [] "loading" (0.0 : Float)))).run = .ok (.ok f) := by
  obtain ⟨hpit, -, -, -, herror, -⟩ := ofScenario_exact (twins (0.0 : Float))
  obtain ⟨hpit', -, hvalid, -⟩ := ofScenario_exact (.lone (.truck [] "loading" (0.0 : Float)))
  refine ⟨(herror _).2 ?_, hvalid.2 ?_⟩
  · rw [hpit rfl]
    exact firstRejected_twins 0.0
  · rw [hpit' rfl]
    exact allValid_truck 0.0

end Twins

end Fleet

end PitFleet
