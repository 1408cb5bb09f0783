import Mathlib.Algebra.GroupWithZero.Nat
import PitFleet.Proofs.Simulation.Ticks

/-!
# Calls of a simulation

Single ticks and runs in any order are one sequence of ticks while the sink takes all reports, or
they end in the fault that the fleet meets (`performAll_exact`). Two simulations that differ in
their clock make the same reports, but for the times (`Reports.stamped`).
-/

namespace PitFleet.Simulation

variable {α σ ε : Type} [Scalar α] [Sink σ α ε]

inductive Call (α : Type)
  | tick
  | run (limit : Option ℕ) (rate : α) (stop : ℕ → Bool)

inductive Answer (α : Type)
  | reported (r : Report α)
  | ran (n : ℕ)

def perform (s : Simulation α σ) :
    Call α → Except Fault (Simulation α σ × Except ε (Answer α))
  | .tick => do
    let (s, r) ← s.tick
    return (s, r.map .reported)
  | .run limit rate stop => do
    let (s, n) ← s.runUntil limit rate stop
    return (s, n.map .ran)

def performAll (s : Simulation α σ) :
    List (Call α) → Except Fault (Simulation α σ × List (Except ε (Answer α)))
  | [] => .ok (s, [])
  | c :: cs => do
    let (s, a) ← s.perform c
    let (s, as) ← s.performAll cs
    return (s, a :: as)

/-- How many ticks a call makes if the sink refuses no report. -/
inductive Call.Lasts : Call α → ℕ → Prop
  | tick : Lasts .tick 1
  | run {limit : Option ℕ} {rate : α} {stop : ℕ → Bool} {n : ℕ} (hrate : Fits rate)
      (hends : Ends limit stop n) : Lasts (.run limit rate stop) n

/-- The answer to a call that made these reports. -/
inductive Call.Answers : Call α → List (Report α) → Answer α → Prop
  | tick (r : Report α) : Answers .tick [r] (.reported r)
  | run {limit : Option ℕ} {stop : ℕ → Bool} (rate : α) {rs : List (Report α)}
      (hends : Ends limit stop rs.length) : Answers (.run limit rate stop) rs (.ran rs.length)

inductive Answered : List (Call α) → List (Report α) → List (Answer α) → Prop
  | nil : Answered [] [] []
  | cons {c : Call α} {cs : List (Call α)} {rs rs' : List (Report α)} {a : Answer α}
      {as : List (Answer α)} (h : c.Answers rs a) (hs : Answered cs rs' as) :
      Answered (c :: cs) (rs ++ rs') (a :: as)

variable {s s' : Simulation α σ} {rs rs' : List (Report α)} {c : Call α} {n : ℕ}

theorem perform_of_ticks (h : Ticks s rs s') (hlasts : c.Lasts rs.length) :
    ∃ a, c.Answers rs a ∧ s.perform c = .ok (s', .ok a) := by
  generalize hn : rs.length = n at hlasts
  cases hlasts with
  | tick =>
    obtain ⟨r, rfl⟩ := List.length_eq_one_iff.1 hn
    rcases h with _ | ⟨hg, htakes, ⟨⟩⟩
    refine ⟨_, .tick _, ?_⟩
    rw [perform, tick_of_takes hg htakes]
    rfl
  | @run limit rate stop _ hrate hends =>
    subst hn
    refine ⟨_, .run rate hends, ?_⟩
    rw [perform, runUntil_of_ticks h hrate hends]
    rfl

theorem perform_of_fault {fault : Fault} (h : Ticks s rs s') (hfault : s'.tick = .error fault)
    (hlasts : c.Lasts n) (hn : rs.length < n) : s.perform c = .error fault := by
  cases hlasts with
  | tick =>
    obtain rfl : rs = [] := List.eq_nil_of_length_eq_zero (by omega)
    obtain ⟨⟩ := h
    rw [perform, hfault]
    rfl
  | run hrate hends =>
    rw [perform, runUntil_of_fault h hrate (hends.goes.mono hn) hfault]
    rfl

/-- On a sink that takes all reports, calls make as many ticks as they last, or meet a fault before
that. -/
theorem performAll_exact {cs : List (Call α)} {ns : List ℕ} (hlasts : List.Forall₂ Call.Lasts cs ns)
    {s : Simulation α σ} (hall : Sink.TakesAll s.sink) :
    (∃ rs s' as, rs.length = ns.sum ∧ Ticks s rs s' ∧ Answered cs rs as
      ∧ s.performAll cs = .ok (s', as.map .ok))
    ∨ ∃ rs s' fault, rs.length < ns.sum ∧ Ticks s rs s' ∧ s'.tick = .error fault
      ∧ s.performAll cs = .error fault := by
  induction hlasts generalizing s with
  | nil => exact .inl ⟨[], s, [], rfl, .nil s, .nil, rfl⟩
  | @cons c n cs ns hc _ ih =>
    rcases ticks_or_fault hall n with ⟨rs, s₁, rfl, h⟩ | ⟨rs, s₁, fault, hn, h, hfault⟩
    · obtain ⟨a, ha, hperform⟩ := perform_of_ticks h hc
      -- The calls left go on from where the first one ends, on a sink that still takes all.
      rcases ih (h.takesAll hall) with
        ⟨rs', s', as, hlength, h', has, hrest⟩ | ⟨rs', s', fault, hlength, h', hfault, hrest⟩
      · refine .inl ⟨rs ++ rs', s', a :: as, ?_, h.append h', .cons ha has, ?_⟩
        · rw [List.length_append, List.sum_cons, hlength]
        · simp only [performAll, hperform, hrest, Fault.ok_bind]
          rfl
      · refine .inr ⟨rs ++ rs', s', fault, ?_, h.append h', hfault, ?_⟩
        · rw [List.length_append, List.sum_cons]
          omega
        · simp only [performAll, hperform, hrest, Fault.ok_bind]
          rfl
    · refine .inr ⟨rs, s₁, fault, ?_, h, hfault, ?_⟩
      · rw [List.sum_cons]
        omega
      · rw [performAll, perform_of_fault h hfault hc hn]
        rfl

theorem Reports.unique (h : s.Reports rs) (h' : s.Reports rs') (hlength : rs.length = rs'.length) :
    rs = rs' := by
  refine List.ext_getElem hlength fun k hk hk' => ?_
  obtain ⟨g, hg, hr⟩ := h k _ (List.getElem?_eq_getElem hk)
  obtain ⟨g', hg', hr'⟩ := h' k _ (List.getElem?_eq_getElem hk')
  obtain rfl : g = g' := Except.ok.inj (hg.symm.trans hg')
  rw [hr, hr']

/-- Under another clock a simulation makes the same reports, but for the times. -/
theorem Reports.stamped (h : s.Reports rs) (now : Int64) :
    ({ s with now := now } : Simulation α σ).Reports (rs.map (·.stamped now)) := by
  intro k r hr
  rw [List.getElem?_map, Option.map_eq_some_iff] at hr
  obtain ⟨r', hr', rfl⟩ := hr
  obtain ⟨g, hg, rfl⟩ := h k r' hr'
  exact ⟨g, hg, g.stamped_report s.now _ now⟩

section Limits

variable {rate rate₁ rate₂ : α}

theorem run_limit (hall : Sink.TakesAll s.sink) (hrate : Fits rate) (n : ℕ) :
    (∃ rs s', rs.length = n ∧ Ticks s rs s' ∧ s.run (some n) rate false = .ok (s', .ok n))
      ∨ ∃ rs s' fault, rs.length < n ∧ Ticks s rs s' ∧ s'.tick = .error fault
        ∧ s.run (some n) rate false = .error fault := by
  rcases ticks_or_fault hall n with ⟨rs, s', rfl, h⟩ | ⟨rs, s', fault, hn, h, hfault⟩
  · exact .inl ⟨rs, s', rfl, h, runUntil_of_ticks h hrate (ends_limit _)⟩
  · exact .inr ⟨rs, s', fault, hn, h, hfault,
      runUntil_of_fault h hrate ((goes_limit n).mono hn) hfault⟩

/-- Two runs one after the other leave the simulation as one run of their ticks does. -/
theorem run_add (hall : Sink.TakesAll s.sink) (hrate : Fits rate) (hrate₁ : Fits rate₁)
    (hrate₂ : Fits rate₂) (n m : ℕ) :
    (s.run (some n) rate₁ false >>= fun p => p.1.run (some m) rate₂ false).map (·.1)
      = (s.run (some (n + m)) rate false).map (·.1) := by
  rcases run_limit hall hrate₁ n with ⟨rs, s₁, rfl, h, hrun⟩ | ⟨rs, s₁, fault, hn, h, hfault, hrun⟩
  · rw [hrun, Fault.ok_bind]
    rcases run_limit (h.takesAll hall) hrate₂ m with
      ⟨rs', s', rfl, h', hrun'⟩ | ⟨rs', s', fault, hm, h', hfault, hrun'⟩
    · have hboth := runUntil_of_ticks (h.append h') hrate (ends_limit _)
      rw [List.length_append] at hboth
      rw [hrun', run, hboth]
      rfl
    · have hboth : (rs ++ rs').length < rs.length + m := by
        rw [List.length_append]
        omega
      rw [hrun', run, runUntil_of_fault (h.append h') hrate ((goes_limit _).mono hboth) hfault]
  · have hboth : rs.length < n + m := by omega
    rw [hrun, run, runUntil_of_fault h hrate ((goes_limit _).mono hboth) hfault]
    rfl

end Limits

/-- The calls make these reports and leave the fleet in this state. -/
def Makes (f : Fleet α) (κ : σ) (dt : α) (now : Int64) (cs : List (Call α)) (g : Fleet α)
    (rs : List (Report α)) : Prop :=
  ∃ as, (new f κ dt now).performAll cs
      = .ok (⟨g, Sink.deliver κ rs, dt, now, rs.length⟩, as.map .ok)
    ∧ Answered cs rs as

theorem makes_or_fault {f : Fleet α} {κ : σ} {cs : List (Call α)} {ns : List ℕ}
    (hlasts : List.Forall₂ Call.Lasts cs ns) (hall : Sink.TakesAll κ) (dt : α) (now : Int64) :
    (∃ g rs, f.updates (List.replicate ns.sum dt) = .ok g ∧ rs.length = ns.sum
      ∧ (new f κ dt now).Reports rs ∧ Makes f κ dt now cs g rs)
    ∨ ∃ fault, f.updates (List.replicate ns.sum dt) = .error fault
      ∧ (new f κ dt now).performAll cs = .error fault := by
  rcases performAll_exact hlasts (s := new f κ dt now) hall with
    ⟨rs, s', as, hlength, h, has, hcs⟩ | ⟨rs, s', fault, hlength, h, hfault, hcs⟩
  · obtain ⟨hreports, -, g, hg, rfl⟩ := ticks_iff.1 h
    rw [hlength] at hg
    refine .inl ⟨g, rs, hg, hlength, hreports, as, ?_, has⟩
    rw [hcs, after, new, Nat.zero_add]
  · exact .inr ⟨fault, h.updates_of_fault hfault hlength, hcs⟩

/-- Calls in any order make `N` ticks and the reports of the fleet after one, two and so on up to
`N` updates, under another clock the same ones but for the times, unless an update meets a fault,
which none does of a fleet that can be reached. A run to a limit makes that many ticks, and two of
them are one; a run that is asked to stop before it starts makes none, and a run whose sink refuses
a report ends with that tick. -/
theorem ticks_exact [OrderedScalar α] (f : Fleet α) (κ : σ) (dt : α) (now : Int64) :
    (∀ cs ns, List.Forall₂ Call.Lasts cs ns → Sink.TakesAll κ →
      (∃ g rs, f.updates (List.replicate ns.sum dt) = .ok g ∧ rs.length = ns.sum
        ∧ (∀ k r, rs[k]? = some r → ∃ h, f.updates (List.replicate (k + 1) dt) = .ok h
          ∧ r = ⟨k + 1, h.telemetry now, h.alerts now⟩)
        ∧ Makes f κ dt now cs g rs
        ∧ ∀ now', Makes f κ dt now' cs g (rs.map (·.stamped now')))
      ∨ ∃ fault, f.updates (List.replicate ns.sum dt) = .error fault
        ∧ (new f κ dt now).performAll cs = .error fault)
    ∧ (f.Reached → ∀ n, ∃ g, f.updates (List.replicate n dt) = .ok g)
    ∧ (∀ (s : Simulation α σ) rate, Fits rate →
      (∀ limit, s.run limit rate true = .ok (s, .ok 0))
      ∧ (Sink.TakesAll s.sink → ∀ n g, s.fleet.updates (List.replicate n s.step) = .ok g →
        ∃ rs, rs.length = n ∧ s.Reports rs ∧ s.run (some n) rate false = .ok (s.after g rs, .ok n))
      ∧ (Sink.TakesAll s.sink → ∀ n m rate₁ rate₂, Fits rate₁ → Fits rate₂ →
        (s.run (some n) rate₁ false >>= fun p => p.1.run (some m) rate₂ false).map (·.1)
          = (s.run (some (n + m)) rate false).map (·.1))
      ∧ ∀ limit stop rs r e κ', s.Reports (rs ++ [r]) → Sink.Takes s.sink rs →
        Sink.emit (Sink.deliver s.sink rs) r = (κ', .error e) → Goes limit stop (rs.length + 1) →
          ∃ g, s.fleet.updates (List.replicate (rs.length + 1) s.step) = .ok g
            ∧ s.runUntil limit rate stop
              = .ok (⟨g, κ', s.step, s.now, s.ticks + rs.length + 1⟩, .error e))
    ∧ ∀ rs : List (Report α), (Sink.deliver Memory.empty rs).reports = rs := by
  refine ⟨fun cs ns hlasts hall => ?_, fun hf n => ?_, fun s rate hrate => ⟨fun limit => ?_,
    fun hall n g hg => ?_, fun hall n m rate₁ rate₂ hrate₁ hrate₂ => ?_,
    fun limit stop rs r e κ' hreports htakes hrefuses hgoes => ?_⟩, fun rs => ?_⟩
  · rcases makes_or_fault hlasts hall dt now with
      ⟨g, rs, hg, hlength, hreports, hmakes⟩ | ⟨fault, hfault, hcs⟩
    · refine .inl ⟨g, rs, hg, hlength, fun k r hr => ?_, hmakes, fun now' => ?_⟩
      · obtain ⟨h, hh, rfl⟩ := hreports k r hr
        refine ⟨h, hh, ?_⟩
        rw [new, Nat.zero_add]
      · rcases makes_or_fault hlasts hall dt now' with
          ⟨g', rs', hg', hlength', hreports', hmakes'⟩ | ⟨fault, hfault, -⟩
        · obtain rfl : g = g' := Except.ok.inj (hg.symm.trans hg')
          have hsame : rs.map (·.stamped now') = rs' := by
            refine (hreports.stamped now').unique hreports' ?_
            rw [List.length_map, hlength, hlength']
          rw [hsame]
          exact hmakes'
        · rw [hg] at hfault
          cases hfault
    · exact .inr ⟨fault, hfault, hcs⟩
  · obtain ⟨g, hg, -⟩ := hf.coherent.updates (List.replicate n dt)
    exact ⟨g, hg⟩
  · exact runUntil_of_ticks (.nil s) hrate ⟨fun j hj => absurd hj j.not_lt_zero, .inl rfl⟩
  · rcases run_limit hall hrate n with ⟨rs, s', rfl, h, hrun⟩ | ⟨rs, s', fault, hn, h, hfault, -⟩
    · obtain ⟨hreports, -, g', hg', rfl⟩ := ticks_iff.1 h
      obtain rfl : g' = g := Except.ok.inj (hg'.symm.trans hg)
      exact ⟨rs, rfl, hreports, hrun⟩
    · rw [h.updates_of_fault hfault hn] at hg
      cases hg
  · exact run_add hall hrate hrate₁ hrate₂ n m
  · exact runUntil_of_refused hrate hreports htakes hrefuses hgoes
  · exact Memory.reports_deliver rs .empty

section Shelf

/-- A sink that refuses reports once it is full. -/
structure Shelf where
  room : ℕ
  kept : List (Report Float)

instance : Sink Shelf Float Unit where
  emit κ r :=
    match κ.room with
    | 0 => (κ, .error ())
    | room + 1 => (⟨room, κ.kept ++ [r]⟩, .ok ())

theorem fits_zero {α : Type} [Scalar α] [OrderedScalar α] : Fits (0.0 : α) :=
  fun hpos => absurd hpos (Scalar.lt_irrefl _)

/-- In doubles: a tick and a run of one tick of two trucks, and a run without a limit whose sink has
room for one report. -/
theorem ticks_exact_shelf : ∃ f : Fleet Float, f.Reached
    ∧ f.vehicles = [Fleet.departing "HT-1", Fleet.departing "HT-2"]
    ∧ ∃ g r r' as, f.updates [1.0, 1.0] = .ok g
      ∧ (new f (Memory.empty : Memory Float) 1.0 0).performAll
          [.tick, .run (some 1) 0.0 fun _ => false]
        = .ok (⟨g, Sink.deliver Memory.empty [r, r'], 1.0, 0, 2⟩, as)
      ∧ (Sink.deliver (Memory.empty : Memory Float) [r, r']).reports = [r, r']
      ∧ (new f (Shelf.mk 1 []) 1.0 0).runUntil none 0.0 (fun _ => false)
        = .ok (⟨g, ⟨0, [r]⟩, 1.0, 0, 2⟩, .error ()) := by
  obtain ⟨f, hf, hvehicles, -⟩ := Fleet.exists_pair (α := Float)
  have hlasts : List.Forall₂ Call.Lasts
      [Call.tick, .run (some 1) (0.0 : Float) fun _ => false] [1, 1] :=
    .cons .tick (.cons (.run fits_zero (ends_limit 1)) .nil)
  obtain ⟨hcalls, hreached, -, hmemory⟩ :=
    ticks_exact f (Memory.empty : Memory Float) 1.0 0
  obtain ⟨-, -, hruns, -⟩ := ticks_exact f (Shelf.mk 1 []) 1.0 0
  obtain ⟨g, hg⟩ := hreached hf 2
  rcases hcalls _ _ hlasts (Memory.takesAll _) with
    ⟨g', rs, hg', hlength, hreports, ⟨as, has, -⟩, -⟩ | ⟨fault, hfault, -⟩
  · obtain rfl : g = g' := Except.ok.inj (hg.symm.trans hg')
    obtain ⟨r, r', rfl⟩ := List.length_eq_two.1 hlength
    obtain ⟨-, -, -, hrefused⟩ := hruns (new f (Shelf.mk 1 []) 1.0 0) 0.0 fits_zero
    have hshelf : (new f (Shelf.mk 1 []) 1.0 0).Reports ([r] ++ [r']) := by
      intro k r'' hr''
      obtain ⟨h, hh, rfl⟩ := hreports k r'' hr''
      refine ⟨h, hh, ?_⟩
      rw [new, Nat.zero_add]
    have hgoes : Goes none (fun _ => false) 2 := fun _ _ => ⟨rfl, nofun⟩
    obtain ⟨h, hh, hshelved⟩ :=
      hrefused none (fun _ => false) [r] r' () ⟨0, [r]⟩ hshelf ⟨rfl, trivial⟩ rfl hgoes
    obtain rfl : g = h := Except.ok.inj (hg.symm.trans hh)
    exact ⟨f, hf, hvehicles, g, r, r', as.map .ok, hg, has, hmemory _, hshelved⟩
  · exact nomatch hg.symm.trans hfault

end Shelf

end PitFleet.Simulation
