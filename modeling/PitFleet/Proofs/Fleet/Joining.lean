import PitFleet.Proofs.Fleet.Waypoints

/-!
# Joining a fleet

A vehicle joins a fleet, or it is told the first reason why it may not: its name is taken, a
waypoint is unknown, its index lies past its route. Adding is also read as a program that checks and
then writes (`join`), of which a refused vehicle sees the checks only (`ask_eq`). However many calls
there were, the fleet consists of the vehicles that joined, in the order in which they did, and
every route is on the map (`performAll_mapped`).
-/

namespace PitFleet

open Navigation

variable {α : Type} [Scalar α] {layout : Layout α} {dt : α} {v v' : Vehicle α}
  {n n' : Navigation α}

/-- The layout knows all waypoints of the way out and of the haul route. -/
structure OnMap (layout : Layout α) (n : Navigation α) : Prop where
  route : ∀ name ∈ n.route.waypoints, layout.contains name = true
  haulRoute : ∀ name ∈ n.haulRoute.waypoints, layout.contains name = true

theorem Navigation.Move.onMap (h : Move layout dt v n v' n') (hn : OnMap layout n) :
    OnMap layout n' := by
  cases h with
  | hauls => exact ⟨hn.haulRoute, hn.haulRoute⟩
  | returns => exact ⟨fun name hname => hn.haulRoute name (List.mem_reverse.1 hname), hn.haulRoute⟩
  | waits | rests | holds | drives | passes | strays | laps | dumps | loads | stops =>
    exact ⟨hn.route, hn.haulRoute⟩

theorem Member.Part.onMap {m m' : Member α} (h : Part layout dt m m')
    (hm : OnMap layout m.navigation) : OnMap layout m'.navigation := by
  cases h with
  | still | coasts => exact hm
  | steers _ _ hmove => exact hmove.onMap hm

def FirstUnknown (layout : Layout α) (names : List String) (name : String) : Prop :=
  ∃ before after, names = before ++ name :: after ∧ layout.contains name = false
    ∧ ∀ known ∈ before, layout.contains known = true

omit [Scalar α] in
theorem FirstUnknown.append {names : List String} {name : String}
    (h : FirstUnknown layout names name) (more : List String) :
    FirstUnknown layout (names ++ more) name := by
  obtain ⟨before, after, rfl, hname, hbefore⟩ := h
  exact ⟨before, after ++ more, List.append_assoc .., hname, hbefore⟩

namespace Fleet

structure Joinable (layout : Layout α) (taken : List String) (v : Vehicle α) (n : Navigation α) :
    Prop where
  fresh : v.id ∉ taken
  onMap : OnMap layout n
  onRoute : n.route.waypoints = [] ∨ n.index < n.route.length

/-- A vehicle that may not, for the first reason that holds. -/
inductive Refused (layout : Layout α) (taken : List String) (v : Vehicle α) (n : Navigation α) :
    SetupError → Prop
  | name (h : v.id ∈ taken) : Refused layout taken v n (.duplicateVehicle v.id)
  | waypoint {name : String} (fresh : v.id ∉ taken)
      (h : FirstUnknown layout (n.route.waypoints ++ n.haulRoute.waypoints) name) :
      Refused layout taken v n (.unknownWaypoint name)
  | index (fresh : v.id ∉ taken) (onMap : OnMap layout n) (hroute : n.route.waypoints ≠ [])
      (h : n.route.length ≤ n.index) :
      Refused layout taken v n (.indexOutOfRange v.id n.index n.route.length)

section Adding

omit [Scalar α]

theorem unknownWaypoint?_eq_none_iff : unknownWaypoint? layout n = none ↔ OnMap layout n := by
  constructor
  · intro h
    obtain ⟨hroute, hhaul⟩ := contains_of_unknownWaypoint? h
    exact ⟨hroute, hhaul⟩
  · intro h
    rw [unknownWaypoint?, List.find?_eq_none]
    simp only [List.mem_append, Bool.not_eq_true', Bool.not_eq_false]
    rintro name (hname | hname)
    · exact h.route name hname
    · exact h.haulRoute name hname

theorem find?_eq_some_iff_firstUnknown {names : List String} {name : String} :
    names.find? (!layout.contains ·) = some name ↔ FirstUnknown layout names name := by
  rw [List.find?_eq_some_iff_append, FirstUnknown]
  simp only [Bool.not_eq_true', Bool.not_not]
  constructor
  · rintro ⟨hname, before, after, hsplit, hbefore⟩
    exact ⟨before, after, hsplit, hname, hbefore⟩
  · rintro ⟨before, after, hsplit, hname, hbefore⟩
    exact ⟨hname, before, after, hsplit, hbefore⟩

theorem unknownWaypoint?_eq_some_iff {name : String} : unknownWaypoint? layout n = some name
    ↔ FirstUnknown layout (n.route.waypoints ++ n.haulRoute.waypoints) name :=
  find?_eq_some_iff_firstUnknown

theorem joinable_or_refused (layout : Layout α) (taken : List String) (v : Vehicle α)
    (n : Navigation α) : Joinable layout taken v n ∨ ∃ e, Refused layout taken v n e := by
  by_cases hfresh : v.id ∈ taken
  · exact .inr ⟨_, .name hfresh⟩
  rcases hknown : unknownWaypoint? layout n with _ | name
  · have hmap := unknownWaypoint?_eq_none_iff.1 hknown
    by_cases hroute : n.route.waypoints = [] ∨ n.index < n.route.length
    · exact .inl ⟨hfresh, hmap, hroute⟩
    · rw [not_or, not_lt] at hroute
      exact .inr ⟨_, .index hfresh hmap hroute.1 hroute.2⟩
  · exact .inr ⟨_, .waypoint hfresh (unknownWaypoint?_eq_some_iff.1 hknown)⟩

variable {f : Fleet α}

theorem admits_of_joinable (h : Joinable f.layout f.navigation.keys v n) : f.Admits v n where
  fresh := by
    rw [Bool.eq_false_iff, Ne, Registry.contains_iff]
    exact h.fresh
  known := unknownWaypoint?_eq_none_iff.2 h.onMap
  onRoute := by
    rw [Route.isEmpty, List.isEmpty_iff]
    exact h.onRoute

theorem add_of_refused {e : SetupError} (h : Refused f.layout f.navigation.keys v n e) :
    f.add v n = .error e := by
  have hnew (hfresh : v.id ∉ f.navigation.keys) : ¬ f.navigation.contains v.id = true := by
    rwa [Registry.contains_iff]
  unfold add
  cases h with
  | name h => exact if_pos (f.navigation.contains_iff v.id |>.2 h)
  | waypoint fresh h => rw [if_neg (hnew fresh), unknownWaypoint?_eq_some_iff.2 h]
  | index fresh onMap hroute h =>
    rw [if_neg (hnew fresh), unknownWaypoint?_eq_none_iff.2 onMap]
    refine if_neg ?_
    rw [Route.isEmpty, List.isEmpty_iff, not_or, not_lt]
    exact ⟨hroute, h⟩

end Adding

/-! ## Programs on a fleet -/

section Programs

omit [Scalar α]

abbrev Program (α β : Type) := ExceptT SetupError (StateM (Fleet α)) β

def require (passes : Fleet α → Bool) (e : SetupError) : Program α Unit := do
  if passes (← get) then return () else throw e

def requireNames (names : List String) : Program α Unit :=
  names.forM fun name => require (·.layout.contains name) (.unknownWaypoint name)

/-- Adding as a program: three checks, then an entry in each of the two containers. -/
def join (v : Vehicle α) (n : Navigation α) : Program α Unit := do
  require (!·.navigation.contains v.id) (.duplicateVehicle v.id)
  requireNames (n.route.waypoints ++ n.haulRoute.waypoints)
  require (fun _ => n.route.isEmpty || decide (n.index < n.route.length))
    (.indexOutOfRange v.id n.index n.route.length)
  modify fun f => { f with navigation := f.navigation.insert v.id n }
  modify fun f => { f with vehicles := f.vehicles ++ [v] }

/-- What `join` answers and the fleet that it leaves. -/
def ask (f : Fleet α) (v : Vehicle α) (n : Navigation α) : Except SetupError Unit × Fleet α :=
  (join v n).run.run f

variable {β γ : Type} {x : Program α β} {k : β → Program α γ} {f g : Fleet α}

theorem run_bind_ok {b : β} (h : x.run.run f = (.ok b, g)) :
    (x >>= k).run.run f = (k b).run.run g := by
  rw [ExceptT.run_bind, StateT.run_bind, h]
  rfl

theorem run_bind_error {e : SetupError} (h : x.run.run f = (.error e, g)) :
    (x >>= k).run.run f = (.error e, g) := by
  rw [ExceptT.run_bind, StateT.run_bind, h]
  rfl

variable (f) in
theorem run_require (passes : Fleet α → Bool) (e : SetupError) :
    (require passes e).run.run f = (if passes f = true then .ok () else .error e, f) := by
  have hget : (get : Program α (Fleet α)).run.run f = (.ok f, f) := rfl
  rw [require, run_bind_ok hget]
  split <;> rfl

variable (f) in
theorem run_requireNames : ∀ names : List String,
    (requireNames names).run.run f = match names.find? (!f.layout.contains ·) with
      | none => (.ok (), f)
      | some name => (.error (.unknownWaypoint name), f)
  | [] => rfl
  | name :: names => by
    have hfirst := run_require f (·.layout.contains name) (.unknownWaypoint name)
    rcases hknown : f.layout.contains name with _ | _ <;> rw [hknown] at hfirst
    · rw [List.find?_cons_of_pos (by simp [hknown])]
      exact run_bind_error hfirst
    · rw [List.find?_cons_of_neg (by simp [hknown]), ← run_requireNames names]
      exact run_bind_ok hfirst

variable (f v n) in
/-- The program answers as `add` does, and a refused vehicle leaves the fleet as it was. -/
theorem ask_eq : f.ask v n = match f.add v n with
    | .ok g => (.ok (), g)
    | .error e => (.error e, f) := by
  have hname := run_require f (!·.navigation.contains v.id) (.duplicateVehicle v.id)
  have hnames := run_requireNames f (n.route.waypoints ++ n.haulRoute.waypoints)
  have hindex := run_require f (fun _ => n.route.isEmpty || decide (n.index < n.route.length))
    (.indexOutOfRange v.id n.index n.route.length)
  rw [← unknownWaypoint?] at hnames
  unfold add ask join
  by_cases htaken : f.navigation.contains v.id = true
  -- The checks follow each other as they do in `add`: the first that fails ends both.
  · simp only [htaken, Bool.not_true, Bool.false_eq_true, if_false] at hname
    rw [run_bind_error hname, if_pos htaken]
  simp only [htaken, Bool.not_false, if_true] at hname
  rw [run_bind_ok hname, if_neg htaken]
  rcases hknown : unknownWaypoint? f.layout n with _ | name <;> rw [hknown] at hnames
  · rw [run_bind_ok hnames]
    by_cases hroute : n.route.isEmpty = true ∨ n.index < n.route.length <;>
      simp only [Bool.or_eq_true, decide_eq_true_iff, hroute, if_true, if_false] at hindex ⊢
    · rw [run_bind_ok hindex]
      rfl
    · rw [run_bind_error hindex]
  · exact run_bind_error hnames

theorem add_eq (f : Fleet α) (v : Vehicle α) (n : Navigation α) :
    f.add v n = (f.ask v n).1.map fun _ => (f.ask v n).2 := by
  rw [ask_eq]
  split <;> assumption

/-- How a vehicle fares that asks to join. -/
inductive Joins (f : Fleet α) (v : Vehicle α) (n : Navigation α) :
    Except SetupError Unit × Fleet α → Prop
  | joined (h : Joinable f.layout (f.vehicles.map (·.id)) v n) : Joins f v n (.ok (), f.push v n)
  | refused {e : SetupError} (h : Refused f.layout (f.vehicles.map (·.id)) v n e) :
    Joins f v n (.error e, f)

end Programs

section Joining

omit [Scalar α]

variable {taken taken' : List String} (hp : taken.Perm taken')
include hp

theorem Joinable.perm (h : Joinable layout taken v n) : Joinable layout taken' v n where
  fresh hc := h.fresh (hp.mem_iff.2 hc)
  onMap := h.onMap
  onRoute := h.onRoute

theorem Refused.perm {e : SetupError} (h : Refused layout taken v n e) :
    Refused layout taken' v n e := by
  have hnew (hfresh : v.id ∉ taken) : v.id ∉ taken' := fun hc => hfresh (hp.mem_iff.2 hc)
  cases h with
  | name h => exact .name (hp.mem_iff.1 h)
  | waypoint fresh h => exact .waypoint (hnew fresh) h
  | index fresh onMap hroute h => exact .index (hnew fresh) onMap hroute h

omit hp in
/-- Where every vehicle has its navigation, a vehicle fares as the vehicles' names let it. -/
theorem ask_eq_iff {f : Fleet α} (hkeys : f.navigation.keys.Perm (f.vehicles.map (·.id)))
    {r : Except SetupError Unit × Fleet α} : f.ask v n = r ↔ f.Joins v n r := by
  have hask {r : Except SetupError Unit × Fleet α} (h : f.Joins v n r) : f.ask v n = r := by
    rw [ask_eq]
    cases h with
    | joined h => rw [add_eq_ok_iff.2 ⟨admits_of_joinable (h.perm hkeys.symm), rfl⟩]
    | refused h => rw [add_of_refused (h.perm hkeys.symm)]
  refine ⟨fun h => ?_, hask⟩
  rcases joinable_or_refused f.layout (f.vehicles.map (·.id)) v n with hjoins | ⟨e, hrefused⟩
  · rw [← h, hask (.joined hjoins)]
    exact .joined hjoins
  · rw [← h, hask (.refused hrefused)]
    exact .refused hrefused

end Joining

/-! ## Calls -/

inductive Call (α : Type)
  | add (v : Vehicle α) (n : Navigation α)
  | update (dt : α)

/-- No setter of a vehicle that is to be added fails. -/
def Call.Bounded : Call α → Prop
  | .add v _ => v.spec.Bounded
  | .update _ => True

def perform (f : Fleet α) : Call α → Except Fault (Except SetupError Unit × Fleet α)
  | .add v n => .ok (f.ask v n)
  | .update dt => do return (.ok (), ← f.update dt)

def performAll (f : Fleet α) : List (Call α) →
    Except Fault (List (Except SetupError Unit) × Fleet α)
  | [] => .ok ([], f)
  | c :: cs => do
    let (a, f) ← f.perform c
    let (as, f) ← f.performAll cs
    return (a :: as, f)

/-- The names of the vehicles that joined, in the order of the calls. -/
def joined : List (Call α) → List (Except SetupError Unit) → List String
  | .add v _ :: cs, .ok () :: as => v.id :: joined cs as
  | _ :: cs, _ :: as => joined cs as
  | _, _ => []

variable {f : Fleet α} {ms : List (Member α)}

theorem Consists.ids (h : f.Consists ms) : f.vehicles.map (·.id) = ms.map (·.vehicle.id) := by
  rw [h.vehicles, List.map_map]
  rfl

theorem Consists.keys_perm (h : f.Consists ms) :
    f.navigation.keys.Perm (f.vehicles.map (·.id)) := by
  rw [h.ids]
  exact h.keys

structure Mapped (f : Fleet α) (ms : List (Member α)) : Prop where
  consists : f.Consists ms
  onMap : ∀ m ∈ ms, OnMap f.layout m.navigation

theorem perform_mapped (h : f.Mapped ms) : ∀ {c : Call α}, c.Bounded → ∃ a g ms',
    f.perform c = .ok (a, g) ∧ g.layout = f.layout ∧ g.Mapped ms'
      ∧ ms'.map (·.vehicle.id) = ms.map (·.vehicle.id) ++ joined [c] [a]
  | .add v n, hb => by
    obtain ⟨hc, hmap⟩ := h
    rcases hr : f.ask v n with ⟨a, g⟩
    refine ⟨a, g, ?_⟩
    cases (ask_eq_iff hc.keys_perm).1 hr with
    | joined hj =>
      have hfresh : v.id ∉ f.navigation.keys := (hj.perm hc.keys_perm.symm).fresh
      refine ⟨ms ++ [⟨v, n⟩], congrArg Except.ok hr, rfl, ⟨push_consists hc hfresh hb, ?_⟩, ?_⟩
      · rw [List.forall_mem_append, List.forall_mem_singleton]
        exact ⟨hmap, hj.onMap⟩
      · rw [List.map_append]
        rfl
    | refused => exact ⟨ms, congrArg Except.ok hr, rfl, ⟨hc, hmap⟩, (List.append_nil _).symm⟩
  | .update dt, _ => by
    obtain ⟨hc, hmap⟩ := h
    obtain ⟨g, hg, hlayout, hcg⟩ := update_consists hc dt
    refine ⟨.ok (), g, _, ?_, hlayout, ⟨hcg, ?_⟩, ?_⟩
    · rw [perform, hg]
      rfl
    · rw [List.forall_mem_map, hlayout]
      exact fun m hm => (Member.next_part (hc.bounded m hm) f.layout dt).onMap (hmap m hm)
    · rw [hc.ids_next dt]
      exact (List.append_nil _).symm

omit [Scalar α] in
theorem joined_cons (c : Call α) (cs : List (Call α)) (a : Except SetupError Unit)
    (as : List (Except SetupError Unit)) :
    joined (c :: cs) (a :: as) = joined [c] [a] ++ joined cs as := by
  cases c <;> cases a <;> rfl

/-- Whatever the calls, the fleet consists of the vehicles that it had and of those that joined. -/
theorem performAll_mapped : ∀ (cs : List (Call α)) {f : Fleet α} {ms : List (Member α)},
    f.Mapped ms → (∀ c ∈ cs, c.Bounded) → ∃ as g ms',
      f.performAll cs = .ok (as, g) ∧ g.layout = f.layout ∧ g.Mapped ms'
        ∧ ms'.map (·.vehicle.id) = ms.map (·.vehicle.id) ++ joined cs as
  | [], f, ms, h, _ => ⟨[], f, ms, rfl, rfl, h, (List.append_nil _).symm⟩
  | c :: cs, f, ms, h, hb => by
    rw [List.forall_mem_cons] at hb
    obtain ⟨a, g, ms', hg, hlayout, hmapped, hids⟩ := perform_mapped h hb.1
    obtain ⟨as, g', ms'', hg', hlayout', hmapped', hids'⟩ := performAll_mapped cs hmapped hb.2
    refine ⟨a :: as, g', ms'', ?_, hlayout'.trans hlayout, hmapped', ?_⟩
    · simp only [performAll, hg, hg', Fault.ok_bind]
      rfl
    · rw [hids', hids, joined_cons c cs, List.append_assoc]

/-- After any calls on an empty fleet no two vehicles have one name, each has its navigation and
there is no other, every route is on the map, and the vehicles stand in the order in which they
joined, which no update changes. A vehicle that asks to join then fares as `Joins` tells. -/
theorem calls_exact (layout : Layout α) (cs : List (Call α)) (hb : ∀ c ∈ cs, c.Bounded) :
    ∃ as f, (new layout).performAll cs = .ok (as, f) ∧ f.layout = layout
      ∧ (f.vehicles.map (·.id)).Nodup ∧ f.navigation.keys.Perm (f.vehicles.map (·.id))
      ∧ (∀ id n, f.navigation? id = some n → OnMap layout n)
      ∧ f.vehicles.map (·.id) = joined cs as
      ∧ (∀ dt, ∃ g, f.update dt = .ok g ∧ g.vehicles.map (·.id) = f.vehicles.map (·.id))
      ∧ (∀ v n, f.add v n = (f.ask v n).1.map fun _ => (f.ask v n).2)
      ∧ ∀ v n r, f.ask v n = r ↔ f.Joins v n r := by
  have hstart : (new layout).Mapped [] := ⟨new_consists layout, by simp⟩
  obtain ⟨as, f, ms, hf, hlayout, ⟨hc, hmap⟩, hids⟩ := performAll_mapped cs hstart hb
  refine ⟨as, f, hf, hlayout, ?_, hc.keys_perm, fun id n hn => ?_, ?_, fun dt => ?_,
    fun v n => add_eq f v n, fun v n r => ask_eq_iff hc.keys_perm⟩
  · rw [hc.ids]
    exact hc.nodup
  · have hkey : id ∈ f.navigation.keys := by
      rw [← Registry.contains_iff, Registry.contains, ← navigation?, hn]
      rfl
    obtain ⟨m, hm, rfl⟩ := List.mem_map.1 (hc.keys.mem_iff.1 hkey)
    have hsame : m.navigation = n := Option.some.inj ((hc.navigation m hm).symm.trans hn)
    have hmapped := hmap m hm
    rw [hlayout, hsame] at hmapped
    exact hmapped
  · rw [hc.ids]
    exact hids
  · obtain ⟨g, hg, -, hcg⟩ := update_consists hc dt
    exact ⟨g, hg, by rw [hcg.ids, hc.ids, hc.ids_next dt]⟩

section Departing

/-- A haul truck that sets out from the loading floor of the built-in pit. -/
def departing (id : String) : Vehicle α :=
  { Vehicle.new id .haulTruck ⟨-20.12200, -43.95200, 820.0⟩ with
    cycle := .hauling
    targetSpeed := haulSpeed }

/-- The way out, past its first waypoint. -/
def outbound : Navigation α :=
  .following .haul 1 20.0

theorem departing_bounded [OrderedScalar α] (id : String) :
    (departing id : Vehicle α).spec.Bounded :=
  Category.haulTruck.spec_bounded

theorem joinable_departing {taken : List String} {id : String} (h : id ∉ taken) :
    Joinable .pit taken (departing id : Vehicle α) outbound where
  fresh := h
  onMap := ⟨fun _ hname => Layout.contains_pit_of_mem_haul hname,
    fun _ hname => Layout.contains_pit_of_mem_haul hname⟩
  onRoute := .inr (show 1 < 8 by decide)

/-- In doubles: a truck joins, drives for a second and asks to join again. -/
theorem calls_exact_departing : (∀ c ∈ [Call.add (departing "HT-1" : Vehicle Float) outbound,
      .update 1.0, .add (departing "HT-1") outbound], c.Bounded)
    ∧ ∃ as f, (new .pit : Fleet Float).performAll
        [.add (departing "HT-1") outbound, .update 1.0, .add (departing "HT-1") outbound]
          = .ok (as, f)
      ∧ f.layout = .pit
      ∧ (f.vehicles.map (·.id)).Nodup ∧ f.navigation.keys.Perm (f.vehicles.map (·.id))
      ∧ (∀ id n, f.navigation? id = some n → OnMap .pit n)
      ∧ f.vehicles.map (·.id) = joined [.add (departing "HT-1" : Vehicle Float) outbound,
        .update 1.0, .add (departing "HT-1") outbound] as
      ∧ (∀ dt, ∃ g, f.update dt = .ok g ∧ g.vehicles.map (·.id) = f.vehicles.map (·.id))
      ∧ (∀ v n, f.add v n = (f.ask v n).1.map fun _ => (f.ask v n).2)
      ∧ ∀ v n r, f.ask v n = r ↔ f.Joins v n r := by
  have hb : ∀ c ∈ [Call.add (departing "HT-1" : Vehicle Float) outbound, .update 1.0,
      .add (departing "HT-1") outbound], c.Bounded := by
    simp only [List.forall_mem_cons]
    exact ⟨departing_bounded _, trivial, departing_bounded _, by simp⟩
  exact ⟨hb, calls_exact .pit _ hb⟩

end Departing

end Fleet

end PitFleet
