import PitFleet.Proofs.Fleet.HaulCycle

/-!
# Loads over a run

A payload is written where loading ends, to all that the vehicle can carry, and where dumping ends,
to nothing; every other move and all motion leave it (`LoadStep`). So between the two ends it is
what the last of them wrote (`LoadLaw.of_step`), in every run of a fleet that is built
(`loads_of_built`).
-/

namespace PitFleet

open Navigation

variable {α : Type} [Scalar α]

namespace Vehicle

/-- Loading is over and the way out begins. -/
def SetsOut (v w : Vehicle α) : Prop :=
  v.cycle = .loading ∧ w.cycle = .hauling

/-- Dumping is over and the way back begins. -/
def TurnsBack (v w : Vehicle α) : Prop :=
  v.cycle = .dumping ∧ w.cycle = .returning

omit [Scalar α] in
theorem not_setsOut_of_turnsBack {v w : Vehicle α} (h : v.TurnsBack w) : ¬ v.SetsOut w := by
  rintro ⟨hv, -⟩
  rw [h.1] at hv
  cases hv

end Vehicle

/-- What an update may do to the load of a vehicle. -/
structure LoadStep (v w : Vehicle α) : Prop where
  spec : w.spec = v.spec
  filled : v.SetsOut w → w.telemetry.payload = w.spec.maxPayload
  emptied : v.TurnsBack w → w.telemetry.payload = 0.0
  kept : ¬ v.SetsOut w → ¬ v.TurnsBack w → w.telemetry.payload = v.telemetry.payload

namespace LoadStep

variable {v w : Vehicle α}

theorem of_kept (hspec : w.spec = v.spec) (hload : w.telemetry.payload = v.telemetry.payload)
    (hout : ¬ v.SetsOut w) (hback : ¬ v.TurnsBack w) : LoadStep v w :=
  ⟨hspec, fun h => absurd h hout, fun h => absurd h hback, fun _ _ => hload⟩

/-- A vehicle that stays in its state neither sets out nor turns back. -/
theorem of_cycle_eq (hspec : w.spec = v.spec)
    (hload : w.telemetry.payload = v.telemetry.payload) (hcycle : w.cycle = v.cycle) :
    LoadStep v w := by
  refine of_kept hspec hload ?_ ?_
  · rintro ⟨hv, hw⟩
    rw [hcycle, hv] at hw
    cases hw
  · rintro ⟨hv, hw⟩
    rw [hcycle, hv] at hw
    cases hw

theorem advance (h : LoadStep v w) (dt : α) : LoadStep v (w.advance dt) := by
  have hspec := (Vehicle.sameKind_advance w dt).spec
  have hcycle := Vehicle.cycle_advance w dt
  have hload := Vehicle.payload_advance w dt
  refine ⟨hspec.trans h.spec, ?_, ?_, ?_⟩
  · rw [Vehicle.SetsOut, hcycle, hload, hspec]
    exact h.filled
  · rw [Vehicle.TurnsBack, hcycle, hload]
    exact h.emptied
  · rw [Vehicle.SetsOut, Vehicle.TurnsBack, hcycle, hload]
    exact h.kept

end LoadStep

theorem Navigation.Move.loadStep [OrderedScalar α] {layout : Layout α} {dt : α}
    {v v' : Vehicle α} {n n' : Navigation α} (h : Move layout dt v n v' n')
    (hb : v.spec.Bounded) : LoadStep v v' := by
  cases h with
  | hauls _ hc =>
    have hself : v.spec.maxPayload ≤ v.spec.maxPayload :=
      Scalar.le_refl (OrderedScalar.isNaN_of_le hb.maxPayload).2
    refine ⟨rfl, fun _ => Vehicle.limited_of_mem hb.maxPayload hself, ?_, ?_⟩
    · rintro ⟨hd, -⟩
      rw [hc] at hd
      cases hd
    · exact fun hout => absurd ⟨hc, rfl⟩ hout
  | returns _ hc =>
    have hzero : (0.0 : α) ≤ 0.0 := Scalar.le_refl (OrderedScalar.isNaN_of_le hb.maxPayload).1
    have hback : v.TurnsBack (((v.setCycle .returning).load 0.0).aim returnSpeed) := ⟨hc, rfl⟩
    exact ⟨rfl, fun hout => absurd hout (Vehicle.not_setsOut_of_turnsBack hback),
      fun _ => Vehicle.limited_of_mem hzero hb.maxPayload, fun _ hnot => absurd hback hnot⟩
  | dumps _ _ _ hc | loads _ _ _ hc =>
    refine .of_kept rfl rfl ?_ ?_ <;>
    · rintro ⟨hv, -⟩
      rw [hc] at hv
      cases hv
  | waits | rests | holds | drives | passes | strays | laps | stops =>
    exact .of_cycle_eq rfl rfl rfl

theorem Member.Part.loadStep [OrderedScalar α] {layout : Layout α} {dt : α} {m m' : Member α}
    (h : Part layout dt m m') (hb : m.vehicle.spec.Bounded) :
    LoadStep m.vehicle m'.vehicle := by
  cases h with
  | still => exact .of_cycle_eq rfl rfl rfl
  | steers _ _ hmove => exact (hmove.loadStep hb).advance dt
  | coasts => exact (LoadStep.of_cycle_eq rfl rfl rfl).advance dt

section Runs

/-- None of the updates in `dts'`, which come after those in `dts`, takes such a step. -/
def Never (step : Vehicle α → Vehicle α → Prop) (v : List α → Vehicle α) (dts dts' : List α) :
    Prop :=
  ∀ done dt rest, dts' = done ++ dt :: rest → ¬ step (v (dts ++ done)) (v (dts ++ done ++ [dt]))

omit [Scalar α] in
/-- What only such a step can end lasts while none is taken. -/
theorem Never.lasts {step : Vehicle α → Vehicle α → Prop} {v : List α → Vehicle α} {dts : List α}
    {P : Vehicle α → Prop}
    (hkeeps : ∀ dts dt, P (v dts) → ¬ step (v dts) (v (dts ++ [dt])) → P (v (dts ++ [dt])))
    (h : P (v dts)) {dts' : List α} (hn : Never step v dts dts') : P (v (dts ++ dts')) := by
  -- On the last update: the ones before it take no such step either.
  induction dts' using List.reverseRecOn with
  | nil => rwa [List.append_nil]
  | append_singleton dts' dt ih =>
    have hbefore : Never step v dts dts' := fun done dt' rest hdone =>
      hn done dt' (rest ++ [dt]) (by rw [hdone, List.append_assoc, List.cons_append])
    rw [← List.append_assoc]
    exact hkeeps _ dt (ih hbefore) (hn dts' dt [] rfl)

/-- The loads of a vehicle in all runs, where `v dts` is the vehicle after the updates in `dts`: it
is full from the end of loading to the next end of dumping, and empty from then to the next end of
loading. -/
structure LoadLaw (v : List α → Vehicle α) : Prop where
  step (dts : List α) (dt : α) : LoadStep (v dts) (v (dts ++ [dt]))
  full {dts dts' : List α} {dt : α} : (v dts).SetsOut (v (dts ++ [dt])) →
    Never Vehicle.TurnsBack v (dts ++ [dt]) dts' →
      (v (dts ++ [dt] ++ dts')).telemetry.payload = (v (dts ++ [dt] ++ dts')).spec.maxPayload
  empty {dts dts' : List α} {dt : α} : (v dts).TurnsBack (v (dts ++ [dt])) →
    Never Vehicle.SetsOut v (dts ++ [dt]) dts' → (v (dts ++ [dt] ++ dts')).telemetry.payload = 0.0

theorem LoadLaw.of_step {v : List α → Vehicle α}
    (hstep : ∀ dts dt, LoadStep (v dts) (v (dts ++ [dt]))) : LoadLaw v := by
  refine ⟨hstep, fun {dts dts' dt} hout => ?_, fun {dts dts' dt} hback => ?_⟩
  · refine Never.lasts (P := fun w => w.telemetry.payload = w.spec.maxPayload)
      (fun dts dt hfull hnot => ?_) ((hstep dts dt).filled hout)
    by_cases hagain : (v dts).SetsOut (v (dts ++ [dt]))
    · exact (hstep dts dt).filled hagain
    · rw [(hstep dts dt).kept hagain hnot, (hstep dts dt).spec]
      exact hfull
  · refine Never.lasts (P := fun w => w.telemetry.payload = 0.0)
      (fun dts dt hempty hnot => ?_) ((hstep dts dt).emptied hback)
    by_cases hagain : (v dts).TurnsBack (v (dts ++ [dt]))
    · exact (hstep dts dt).emptied hagain
    · rw [(hstep dts dt).kept hnot hagain]
      exact hempty

end Runs

namespace Fleet

/-- After the updates in `dts` the vehicle in the place `i` is `v dts`. -/
def Traces (f : Fleet α) (i : ℕ) (v : List α → Vehicle α) : Prop :=
  ∀ dts, ∃ g, f.updates dts = .ok g ∧ g.vehicles[i]? = some (v dts)

theorem Consists.traces {f : Fleet α} {ms : List (Member α)} (h : f.Consists ms) {i : ℕ}
    {m : Member α} (hm : ms[i]? = some m) : f.Traces i fun dts => (m.run f.layout dts).vehicle := by
  intro dts
  obtain ⟨g, hg, -, hcg, -⟩ := h.run hm dts
  refine ⟨g, hg, ?_⟩
  rw [hcg.vehicles, List.getElem?_map, List.getElem?_map, hm]
  rfl

/-- In a fleet that is built a vehicle's load changes at the end of loading and of dumping only. -/
theorem loads_of_built [OrderedScalar α] {f : Fleet α} (hf : f.Built) {i : ℕ} (hi : i < f.size) :
    ∃ v, f.Traces i v ∧ LoadLaw v := by
  obtain ⟨ms, hc, -⟩ := hf.consists
  have hi' : i < ms.length := by
    rwa [size, hc.vehicles, List.length_map] at hi
  have hm : ms[i]? = some ms[i] := List.getElem?_eq_getElem hi'
  refine ⟨_, hc.traces hm, .of_step fun dts dt => ?_⟩
  obtain ⟨g, hg, hlayout, hcg, hgm⟩ := hc.run hm dts
  have hmem := List.mem_of_getElem? (hcg.member? i ▸ hgm)
  have hpart := Member.next_part (hcg.bounded _ hmem) f.layout dt
  have hnext : ms[i].run f.layout (dts ++ [dt]) = (ms[i].run f.layout dts).next f.layout dt :=
    List.foldl_append
  rw [hnext]
  exact hpart.loadStep (hcg.bounded _ hmem)

theorem size_pit : (pit : Fleet α).size = 5 :=
  rfl

/-- The truck of the built-in fleet that loads. -/
theorem loads_pit : ∃ v, (pit : Fleet Float).Traces 0 v ∧ LoadLaw v :=
  loads_of_built .pit (by rw [size_pit]; decide)

end Fleet

end PitFleet
