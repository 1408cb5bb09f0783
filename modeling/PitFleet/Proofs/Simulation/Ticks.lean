import PitFleet.Proofs.Fleet.Independence
import PitFleet.Simulation

/-!
# The ticks of a simulation

While its sink takes all reports, a simulation goes from tick to tick (`Ticks`): the report of its
`k`-th tick is of the fleet after `k` updates, and of nothing else (`ticks_iff`). A run is as many
ticks as its limit and the request to stop let it be, or ends where the sink refuses a report
(`runUntil_of_ticks`, `runUntil_of_refused`), so that calls in any order make one sequence of ticks
(`performAll_of_ticks`).
-/

namespace PitFleet

/-! ## Sinks that are handed reports -/

namespace Sink

variable {α σ ε : Type} [Sink σ α ε]

/-- The sink after it was handed the reports. -/
def deliver (κ : σ) (rs : List (Report α)) : σ :=
  rs.foldl (fun κ r => (emit κ r).1) κ

/-- The sink refuses none of the reports when it is handed one after the other. -/
def Takes : σ → List (Report α) → Prop
  | _, [] => True
  | κ, r :: rs => (emit κ r).2 = .ok () ∧ Takes (emit κ r).1 rs

def TakesAll (κ : σ) : Prop :=
  ∀ rs, Takes κ rs

theorem TakesAll.emit {κ : σ} (h : TakesAll κ) (r : Report α) :
    (emit κ r).2 = .ok () ∧ TakesAll (Sink.emit κ r).1 :=
  ⟨(h [r]).1, fun rs => (h (r :: rs)).2⟩

end Sink

namespace Memory

variable {α : Type}

theorem takesAll (m : Memory α) : Sink.TakesAll m := by
  intro rs
  induction rs generalizing m with
  | nil => trivial
  | cons r rs ih => exact ⟨rfl, ih _⟩

theorem reports_deliver (rs : List (Report α)) :
    ∀ m : Memory α, (Sink.deliver m rs).reports = m.reports ++ rs := by
  induction rs with
  | nil => exact fun m => (List.append_nil _).symm
  | cons r rs ih =>
    intro m
    have hfirst : (Sink.emit m r).1.reports = m.reports ++ [r] := List.reverse_cons
    show (Sink.deliver (Sink.emit m r).1 rs).reports = _
    rw [ih, hfirst, List.append_assoc]
    rfl

end Memory

variable {α σ ε : Type} [Scalar α]

/-! ## Reports under another clock -/

section Clock

/-- The report with another time on its packets and alerts. -/
def Report.stamped (now : Int64) (r : Report α) : Report α where
  tick := r.tick
  telemetry := r.telemetry.map ({ · with timestamp := now })
  alerts := r.alerts.map ({ · with timestamp := now })

theorem CollisionAlert.ofPair?_stamped (now now' : Int64) (a b : Track α) :
    (ofPair? now a b).map ({ · with timestamp := now' }) = ofPair? now' a b := by
  unfold ofPair?
  split
  · rw [Option.map_map]
    rfl
  · rfl

theorem CollisionAlert.evaluate_stamped (now now' : Int64) (tracks : List (Track α)) :
    (evaluate now tracks).map ({ · with timestamp := now' }) = evaluate now' tracks := by
  rw [evaluate, List.map_filterMap]
  exact List.filterMap_congr fun (a, b) _ => ofPair?_stamped now now' a b

variable (f : Fleet α) (now : Int64)

omit [Scalar α] in
theorem Fleet.telemetry_stamped (now' : Int64) :
    (f.telemetry now).map ({ · with timestamp := now' }) = f.telemetry now' := by
  rw [telemetry, List.map_map]
  rfl

theorem Fleet.stamped_report (tick : ℕ) (now' : Int64) :
    (⟨tick, f.telemetry now, f.alerts now⟩ : Report α).stamped now'
      = ⟨tick, f.telemetry now', f.alerts now'⟩ := by
  rw [Report.stamped, f.telemetry_stamped now, alerts, CollisionAlert.evaluate_stamped]
  rfl

end Clock

theorem Fleet.updates_append (dts dts' : List α) :
    ∀ f : Fleet α, f.updates (dts ++ dts') = (do (← f.updates dts).updates dts') := by
  induction dts with
  | nil => exact fun f => rfl
  | cons dt dts ih => simp only [List.cons_append, updates, ih, bind_assoc, implies_true]

theorem Fleet.updates_replicate_succ (f : Fleet α) (n : ℕ) (dt : α) :
    f.updates (List.replicate (n + 1) dt)
      = (do (← f.update dt).updates (List.replicate n dt)) :=
  rfl

theorem Fleet.update_of_updates_succ {f g : Fleet α} {n : ℕ} {dt : α}
    (h : f.updates (List.replicate (n + 1) dt) = .ok g) :
    ∃ g', f.updates (List.replicate n dt) = .ok g' ∧ g'.update dt = .ok g := by
  rw [List.replicate_succ', updates_append] at h
  rcases hbefore : f.updates (List.replicate n dt) with fault | g' <;> rw [hbefore] at h
  · cases h
  refine ⟨g', rfl, ?_⟩
  rw [Fault.ok_bind, updates] at h
  rcases hg' : g'.update dt with fault | g'' <;> rw [hg'] at h
  · cases h
  · exact h

namespace Simulation

variable [Sink σ α ε]

/-! ## One tick -/

def report (s : Simulation α σ) (g : Fleet α) : Report α :=
  ⟨s.ticks + 1, g.telemetry s.now, g.alerts s.now⟩

def next (s : Simulation α σ) (g : Fleet α) : Simulation α σ :=
  { s with fleet := g, sink := (Sink.emit s.sink (s.report g)).1, ticks := s.ticks + 1 }

theorem tick_eq (s : Simulation α σ) : s.tick = match s.fleet.update s.step with
    | .error fault => .error fault
    | .ok g => .ok (s.next g, (Sink.emit s.sink (s.report g)).2.map fun _ => s.report g) := by
  unfold tick
  rcases s.fleet.update s.step with fault | g <;> rfl

theorem tick_of_takes {s : Simulation α σ} {g : Fleet α} (hg : s.fleet.update s.step = .ok g)
    (htakes : (Sink.emit s.sink (s.report g)).2 = .ok ()) :
    s.tick = .ok (s.next g, .ok (s.report g)) := by
  simp only [tick_eq, hg, htakes]
  rfl

theorem tick_of_refuses {s : Simulation α σ} {g : Fleet α} {e : ε}
    (hg : s.fleet.update s.step = .ok g)
    (hrefuses : (Sink.emit s.sink (s.report g)).2 = .error e) :
    s.tick = .ok (s.next g, .error e) := by
  simp only [tick_eq, hg, hrefuses]
  rfl

/-- The simulation makes these reports one after the other and its sink takes them. -/
inductive Ticks : Simulation α σ → List (Report α) → Simulation α σ → Prop
  | nil (s : Simulation α σ) : Ticks s [] s
  | cons {s s' : Simulation α σ} {g : Fleet α} {rs : List (Report α)}
      (hg : s.fleet.update s.step = .ok g)
      (htakes : (Sink.emit s.sink (s.report g)).2 = .ok ())
      (h : Ticks (s.next g) rs s') : Ticks s (s.report g :: rs) s'

/-- These are the reports of the next ticks: the first is of the fleet after one update, the second
after two, and so on. -/
def Reports (s : Simulation α σ) (rs : List (Report α)) : Prop :=
  ∀ k r, rs[k]? = some r → ∃ g, s.fleet.updates (List.replicate (k + 1) s.step) = .ok g
    ∧ r = ⟨s.ticks + k + 1, g.telemetry s.now, g.alerts s.now⟩

/-- The simulation when the fleet is in this state and the reports were made. -/
def after (s : Simulation α σ) (g : Fleet α) (rs : List (Report α)) : Simulation α σ :=
  { s with fleet := g, sink := Sink.deliver s.sink rs, ticks := s.ticks + rs.length }

variable {s s' : Simulation α σ} {rs rs' : List (Report α)} {r : Report α}

theorem reports_nil (s : Simulation α σ) : s.Reports [] := by
  simp [Reports]

theorem reports_cons : s.Reports (r :: rs)
    ↔ ∃ g, s.fleet.update s.step = .ok g ∧ r = s.report g ∧ (s.next g).Reports rs := by
  constructor
  · intro h
    obtain ⟨g, hg, hr⟩ := h 0 r rfl
    rcases hupdate : s.fleet.update s.step with fault | g'
    · rw [Fleet.updates_replicate_succ, hupdate] at hg
      cases hg
    rw [Fleet.updates_replicate_succ, hupdate] at hg
    obtain rfl : g' = g := Except.ok.inj hg
    refine ⟨g', rfl, hr, fun k r' hr' => ?_⟩
    obtain ⟨g'', hg'', hr''⟩ := h (k + 1) r' hr'
    rw [Fleet.updates_replicate_succ, hupdate] at hg''
    refine ⟨g'', hg'', ?_⟩
    rw [hr'', ← Nat.add_right_comm]
    rfl
  · rintro ⟨g, hg, rfl, h⟩ (_ | k) r' hr'
    · obtain rfl : s.report g = r' := Option.some.inj hr'
      refine ⟨g, ?_, rfl⟩
      rw [Fleet.updates_replicate_succ, hg]
      rfl
    · obtain ⟨g', hg', rfl⟩ := h k r' hr'
      refine ⟨g', ?_, ?_⟩
      · rw [Fleet.updates_replicate_succ, hg]
        exact hg'
      · rw [← Nat.add_assoc, Nat.add_right_comm s.ticks k 1]
        rfl

/-- Ticks are the updates of the fleet, reported in turn to the sink. -/
theorem ticks_iff : Ticks s rs s' ↔ s.Reports rs ∧ Sink.Takes s.sink rs
    ∧ ∃ g, s.fleet.updates (List.replicate rs.length s.step) = .ok g ∧ s' = s.after g rs := by
  induction rs generalizing s s' with
  | nil =>
    constructor
    · rintro ⟨⟩
      exact ⟨reports_nil _, trivial, _, rfl, rfl⟩
    · rintro ⟨-, -, g, hg, rfl⟩
      obtain rfl : s.fleet = g := Except.ok.inj hg
      exact .nil s
  | cons r rs ih =>
    -- What is after the first tick is after all of them, as reports are counted from its state on.
    have hcount (g g' : Fleet α) : (s.next g').after g rs = s.after g (s.report g' :: rs) := by
      rw [after, after, List.length_cons, ← Nat.add_assoc, Nat.add_right_comm]
      rfl
    constructor
    · rintro (_ | ⟨hg, htakes, h⟩)
      obtain ⟨hreports, htakes', g', hg', rfl⟩ := ih.1 h
      refine ⟨reports_cons.2 ⟨_, hg, rfl, hreports⟩, ⟨htakes, htakes'⟩, g', ?_, hcount ..⟩
      rw [List.length_cons, Fleet.updates_replicate_succ, hg]
      exact hg'
    · rintro ⟨hreports, htakes, g', hg', rfl⟩
      obtain ⟨g, hg, rfl, hrest⟩ := reports_cons.1 hreports
      rw [List.length_cons, Fleet.updates_replicate_succ, hg] at hg'
      rw [← hcount g' g]
      exact .cons hg htakes.1 (ih.2 ⟨hrest, htakes.2, g', hg', rfl⟩)

theorem Ticks.append (h : Ticks s rs s') {s'' : Simulation α σ} (h' : Ticks s' rs' s'') :
    Ticks s (rs ++ rs') s'' := by
  induction h with
  | nil => exact h'
  | cons hg htakes _ ih => exact .cons hg htakes (ih h')

theorem Ticks.takesAll (h : Ticks s rs s') (hall : Sink.TakesAll s.sink) :
    Sink.TakesAll s'.sink := by
  induction h with
  | nil => exact hall
  | cons _ _ _ ih => exact ih (hall.emit _).2

/-- A sink that takes all reports lets the simulation tick on until the fleet meets a fault. -/
theorem ticks_or_fault (hall : Sink.TakesAll s.sink) (n : ℕ) :
    (∃ rs s', rs.length = n ∧ Ticks s rs s')
      ∨ ∃ rs s' fault, rs.length < n ∧ Ticks s rs s' ∧ s'.tick = .error fault := by
  induction n generalizing s with
  | zero => exact .inl ⟨[], s, rfl, .nil s⟩
  | succ n ih =>
    rcases hg : s.fleet.update s.step with fault | g
    · refine .inr ⟨[], s, fault, n.succ_pos, .nil s, ?_⟩
      rw [tick_eq, hg]
    · obtain ⟨htakes, hnext⟩ := hall.emit (s.report g)
      rcases ih (s := s.next g) hnext with ⟨rs, s', hn, h⟩ | ⟨rs, s', fault, hn, h, hfault⟩
      · exact .inl ⟨s.report g :: rs, s', congrArg Nat.succ hn, .cons hg htakes h⟩
      · exact .inr ⟨s.report g :: rs, s', fault, Nat.succ_lt_succ hn, .cons hg htakes h, hfault⟩

/-- A fault of a tick is one of the update that it makes. -/
theorem Ticks.updates_of_fault {fault : Fault} (h : Ticks s rs s') (hfault : s'.tick = .error fault)
    {n : ℕ} (hn : rs.length < n) :
    s.fleet.updates (List.replicate n s.step) = .error fault := by
  induction h generalizing n with
  | nil s =>
    obtain ⟨n, rfl⟩ := Nat.exists_eq_succ_of_ne_zero (Nat.ne_of_gt hn)
    rw [tick_eq] at hfault
    rcases hg : s.fleet.update s.step with fault' | g <;> rw [hg] at hfault
    · obtain rfl : fault' = fault := Except.error.inj hfault
      rw [Fleet.updates_replicate_succ, hg]
      rfl
    · cases hfault
  | cons hg _ _ ih =>
    obtain ⟨n, rfl⟩ := Nat.exists_eq_succ_of_ne_zero (Nat.ne_zero_of_lt hn)
    rw [Fleet.updates_replicate_succ, hg]
    exact ih hfault (Nat.lt_of_succ_lt_succ hn)

/-! ## Runs -/

/-- The time between two ticks at this rate can be waited for; there is none unless the rate is a
number above zero. -/
def Fits (rate : α) : Prop :=
  0.0 < rate → Scalar.isFinite rate = true → 1.0 / rate < endlessPeriod

/-- Neither the limit nor a request ends a run before it ticks this often. -/
def Goes (limit : Option ℕ) (stop : ℕ → Bool) (n : ℕ) : Prop :=
  ∀ j < n, stop j = false ∧ ∀ m, limit = some m → j < m

/-- The limit or a request ends a run after this many ticks. -/
structure Ends (limit : Option ℕ) (stop : ℕ → Bool) (n : ℕ) : Prop where
  goes : Goes limit stop n
  ends : stop n = true ∨ limit = some n

variable {limit : Option ℕ} {rate : α} {stop : ℕ → Bool} {n : ℕ}

theorem Goes.mono {m : ℕ} (h : Goes limit stop n) (hm : m ≤ n) : Goes limit stop m :=
  fun j hj => h j (hj.trans_le hm)

theorem goes_limit (n : ℕ) : Goes (some n) (fun _ => false) n :=
  fun _ hj => ⟨rfl, fun _ hm => Option.some.inj hm ▸ hj⟩

theorem ends_limit (n : ℕ) : Ends (some n) (fun _ => false) n :=
  ⟨goes_limit n, .inr rfl⟩

omit [Sink σ α ε] in
theorem checkRate_of_fits (h : Fits rate) : checkRate rate = .ok () := by
  refine if_neg fun hc => hc.2.2 ?_
  exact h hc.1 hc.2.1

theorem loop_of_ends (s : Simulation α σ) (h : Ends limit stop n) :
    loop limit stop n s = .ok (s, .ok n) := by
  have hends : (stop n || limit.any (· ≤ n)) = true := by
    rcases h.ends with h | rfl
    · rw [h, Bool.true_or]
    · simp
  rw [loop_eq, if_pos hends]

theorem loop_of_goes (s : Simulation α σ) {j : ℕ} (h : Goes limit stop n) (hj : j < n) :
    loop limit stop j s = match s.tick with
      | .error fault => .error fault
      | .ok (s, .error e) => .ok (s, .error e)
      | .ok (s, .ok _) => loop limit stop (j + 1) s := by
  obtain ⟨hstop, hlimit⟩ := h j hj
  have hgoes : ¬ (stop j || limit.any (· ≤ j)) = true := by
    rw [hstop, Bool.false_or, Option.any_eq_true]
    rintro ⟨m, hm, hle⟩
    exact absurd (of_decide_eq_true hle) (Nat.not_le.2 (hlimit m hm))
  rcases htick : s.tick with _ | ⟨_, _ | _⟩ <;> rw [loop_eq, if_neg hgoes, htick]

theorem loop_of_ticks (h : Ticks s rs s') (j : ℕ) (hgoes : Goes limit stop (j + rs.length)) :
    loop limit stop j s = loop limit stop (j + rs.length) s' := by
  induction h generalizing j with
  | nil => rfl
  | cons hg htakes _ ih =>
    rw [List.length_cons, ← Nat.add_assoc, Nat.add_right_comm] at hgoes ⊢
    rw [loop_of_goes _ hgoes (by omega), tick_of_takes hg htakes]
    exact ih (j + 1) hgoes

theorem runUntil_eq (s : Simulation α σ) (h : Fits rate) (limit : Option ℕ) (stop : ℕ → Bool) :
    s.runUntil limit rate stop = loop limit stop 0 s := by
  rw [runUntil, checkRate_of_fits h]
  rfl

theorem runUntil_of_ticks (h : Ticks s rs s') (hrate : Fits rate)
    (hends : Ends limit stop rs.length) :
    s.runUntil limit rate stop = .ok (s', .ok rs.length) := by
  have hgoes : Goes limit stop (0 + rs.length) := by
    rw [Nat.zero_add]
    exact hends.goes
  rw [s.runUntil_eq hrate, loop_of_ticks h 0 hgoes, Nat.zero_add, loop_of_ends s' hends]

theorem runUntil_of_goes (h : Ticks s rs s') (hrate : Fits rate)
    (hgoes : Goes limit stop (rs.length + 1)) :
    s.runUntil limit rate stop = match s'.tick with
      | .error fault => .error fault
      | .ok (s, .error e) => .ok (s, .error e)
      | .ok (s, .ok _) => loop limit stop (rs.length + 1) s := by
  have hgoes' : Goes limit stop (0 + rs.length) := hgoes.mono (by omega)
  rw [s.runUntil_eq hrate, loop_of_ticks h 0 hgoes', Nat.zero_add,
    loop_of_goes s' hgoes (Nat.lt_succ_self _)]

theorem runUntil_of_fault {fault : Fault} (h : Ticks s rs s') (hrate : Fits rate)
    (hgoes : Goes limit stop (rs.length + 1)) (hfault : s'.tick = .error fault) :
    s.runUntil limit rate stop = .error fault := by
  rw [runUntil_of_goes h hrate hgoes, hfault]

/-- A report that the sink refuses is the last one, and its tick was made. -/
theorem runUntil_of_refused {e : ε} {κ : σ} (hrate : Fits rate) (hreports : s.Reports (rs ++ [r]))
    (htakes : Sink.Takes s.sink rs)
    (hrefuses : Sink.emit (Sink.deliver s.sink rs) r = (κ, .error e))
    (hgoes : Goes limit stop (rs.length + 1)) :
    ∃ g, s.fleet.updates (List.replicate (rs.length + 1) s.step) = .ok g
      ∧ s.runUntil limit rate stop
        = .ok ({ s with fleet := g, sink := κ, ticks := s.ticks + rs.length + 1 }, .error e) := by
  obtain ⟨g, hg, rfl⟩ := hreports rs.length r List.getElem?_concat_length
  obtain ⟨g', hbefore, hupdate⟩ := Fleet.update_of_updates_succ hg
  have hticks : Ticks s rs (s.after g' rs) := by
    refine ticks_iff.2 ⟨fun k r' hr' => ?_, htakes, g', hbefore, rfl⟩
    refine hreports k r' ?_
    rw [List.getElem?_append_left (List.getElem?_eq_some_iff.1 hr').1, hr']
  have htick := tick_of_refuses (s := s.after g' rs) hupdate (congrArg Prod.snd hrefuses)
  have hnext : (s.after g' rs).next g
      = { s with fleet := g, sink := κ, ticks := s.ticks + rs.length + 1 } := by
    have hsink : (Sink.emit (Sink.deliver s.sink rs) _).1 = κ := congrArg Prod.fst hrefuses
    rw [← hsink]
    rfl
  refine ⟨g, hg, ?_⟩
  rw [runUntil_of_goes hticks hrate hgoes, htick, hnext]

end Simulation

end PitFleet
