import Mathlib
import PitFleet.CommandLine.Session
import PitFleet.Proofs.Config.Storage

/-!
# Changing the configuration

Every command needs the configuration that the files hold and comes to nothing without one
(`Session.prepare_of_error`), a reset as well. A command that changes it leaves the changed one in
its file (`Session.succeeds_iff`), from where the next command takes it. On this way its rate and its
step are written and read once for every command that saves, from the one on that set them, and so
may become others or be lost; all else stays as it was set (`Configured.stored_eq`).
-/

namespace PitFleet.CommandLine

open Config ConfigOptions FileTree Json Document

/-- The configuration that a command leaves. -/
def ConfigOptions.edited (o : ConfigOptions) (c : Config) : Config :=
  if o.reset then .default
  else
    { c with
      tickRate := o.rate.getD c.tickRate
      host := o.host.getD c.host
      port := o.port.getD c.port
      format := o.format.getD c.format
      scenarioPath := o.scenario.or c.scenarioPath }

namespace ConfigOptions

/-- The configuration that commands leave one after another. -/
def edits (os : List ConfigOptions) (c : Config) : Config :=
  os.foldl (fun c o => o.edited c) c

variable {o : ConfigOptions} {c : Config}

theorem edited_of_reset (h : o.reset = true) : o.edited c = .default :=
  if_pos h

theorem edited_of_not_reset (h : o.reset = false) : o.edited c = o.apply c := by
  rw [edited, if_neg (by simp [h]), apply, Option.orElse_eq_orElse, Option.orElse_eq_or]

theorem edits_concat (os : List ConfigOptions) (o : ConfigOptions) (c : Config) :
    edits (os ++ [o]) c = o.edited (edits os c) := by
  rw [edits, List.foldl_concat, ← edits]

theorem edited_of_not_changes (h : o.reset = false ∧ o.changes = false) : o.edited c = c := by
  obtain ⟨hreset, hchanges⟩ := h
  simp only [changes, Bool.or_eq_false_iff, Option.isSome_eq_false_iff, Option.isNone_iff_eq_none]
    at hchanges
  obtain ⟨⟨⟨⟨hhost, hport⟩, hrate⟩, hformat⟩, hscenario⟩ := hchanges
  simp [edited, hreset, hhost, hport, hrate, hformat, hscenario]

/-! ### Savings -/

/-- Whether the command saves a configuration. -/
def saves (o : ConfigOptions) : Bool :=
  o.reset || o.changes

def setsRate (o : ConfigOptions) : Bool :=
  o.reset || o.rate.isSome

/-- Only a reset does. -/
def setsStep (o : ConfigOptions) : Bool :=
  o.reset

/-- The savings of a setting after one more command. -/
def savingsAfter (sets : ConfigOptions → Bool) (n : ℕ) (o : ConfigOptions) : ℕ :=
  if o.saves then if sets o then 1 else n + 1 else n

/-- How often commands have saved a setting since one of them last set it. -/
def savings (sets : ConfigOptions → Bool) (os : List ConfigOptions) : ℕ :=
  os.foldl (savingsAfter sets) 0

theorem savings_concat (sets : ConfigOptions → Bool) (os : List ConfigOptions)
    (o : ConfigOptions) : savings sets (os ++ [o]) = savingsAfter sets (savings sets os) o := by
  rw [savings, List.foldl_concat, ← savings]

section Counting

variable {sets : ConfigOptions → Bool} {n : ℕ}

theorem savingsAfter_of_sets (hsaves : o.saves = true) (hsets : sets o = true) :
    savingsAfter sets n o = 1 := by
  rw [savingsAfter, if_pos hsaves, if_pos hsets]

theorem savingsAfter_of_not_sets (hsaves : o.saves = true) (hsets : ¬ sets o = true) :
    savingsAfter sets n o = n + 1 := by
  rw [savingsAfter, if_pos hsaves, if_neg hsets]

theorem savingsAfter_of_not_saves (h : ¬ o.saves = true) : savingsAfter sets n o = n :=
  if_neg h

end Counting

theorem edited_of_not_saves (h : ¬ o.saves = true) : o.edited c = c :=
  edited_of_not_changes (by simpa [saves] using h)

/-- A rate that was never saved is the one at the start. -/
theorem tickRate_edits_of_savings {os : List ConfigOptions} (h : savings setsRate os = 0) :
    (edits os c).tickRate = c.tickRate := by
  induction os using List.reverseRecOn with
  | nil => rfl
  | append_singleton os o ih =>
    rw [savings_concat, savingsAfter] at h
    split_ifs at h with hsaves
    rw [edits_concat, edited_of_not_saves hsaves]
    exact ih h

/-- What is read of a changed configuration, when the one that is changed has been written and read
before. -/
theorem rereads_edited {c' : Config} {rateTimes stepTimes : ℕ} (hsaves : o.saves = true)
    (hc' : c.rereads rateTimes stepTimes = some c') :
    (o.edited c').rereads 1 1 = (o.edited c).rereads (savingsAfter setsRate rateTimes o)
      (savingsAfter setsStep stepTimes o) := by
  obtain ⟨rate, step, hrate, hstep, rfl⟩ := rereads_eq_some_iff.1 hc'
  by_cases hreset : o.reset = true
  · have hsetsRate : o.setsRate = true := by rw [setsRate, hreset, Bool.true_or]
    have hsetsStep : o.setsStep = true := hreset
    rw [savingsAfter_of_sets hsaves hsetsRate, savingsAfter_of_sets hsaves hsetsStep,
      edited_of_reset hreset, edited_of_reset hreset]
  · have hsetsStep : ¬ o.setsStep = true := hreset
    rw [savingsAfter_of_not_sets hsaves hsetsStep]
    rw [Bool.not_eq_true] at hreset
    have hstep' : Json.rereads (stepTimes + 1) c.step = Json.rereads 1 step := by
      rw [rereads_succ, hstep, rereads_one, Option.bind_some]
    rw [edited_of_not_reset hreset, edited_of_not_reset hreset]
    cases hset : o.rate with
    | none =>
      have hsetsRate : ¬ o.setsRate = true := by simp [setsRate, hreset, hset]
      have hrate' : Json.rereads (rateTimes + 1) c.tickRate = Json.rereads 1 rate := by
        rw [rereads_succ, hrate, rereads_one, Option.bind_some]
      rw [savingsAfter_of_not_sets hsaves hsetsRate]
      simp [Config.rereads, apply, hset, hrate', hstep']
    | some x =>
      have hsetsRate : o.setsRate = true := by simp [setsRate, hset]
      rw [savingsAfter_of_sets hsaves hsetsRate]
      simp [Config.rereads, apply, hset, hstep']

end ConfigOptions

namespace Session

variable {t t' : FileTree} {path : String} {now : Int64} {o : ConfigOptions} {c : Config}

theorem prepare_of_error {e : Error} (h : stored t path = .error e) (i : Invocation) :
    t.outcome (prepare path now i) = (.error (.error e), t) := by
  refine outcome_bind_error ?_
  rw [outcome_adapt, outcome_load, h]
  rfl

theorem prepare_of_stored (h : stored t path = .ok c) (i : Invocation) :
    t.outcome (prepare path now i) = t.outcome (match i.command with
      | .run o => do
        return .run (o.plan c (i.format.getD c.format) (← c.openFleet o.scenario))
      | .check scenario => do
        return .print (checkText (i.format.getD c.format) (← c.openFleet scenario) now)
      | .config o => do
        return .print (← ExceptT.adapt Failure.error (configure path o)) :
      ExceptT Failure (StateM FileTree) Job) := by
  have hload : t.outcome (ExceptT.adapt Failure.error (Config.load path)) = (.ok c, t) := by
    rw [outcome_adapt, outcome_load, h]
    rfl
  exact outcome_bind_ok hload

theorem configure_of_reset (hreset : o.reset = true) :
    (∃ text, t.outcome (configure path o) = (.ok text, t'))
      ↔ t.outcome (Config.default.save path) = (.ok (), t') := by
  unfold configure
  rw [if_pos hreset]
  simp [exists_outcome_map_iff]

theorem configure_of_not_reset (hreset : o.reset = false) (h : stored t path = .ok c) :
    (∃ text, t.outcome (configure path o) = (.ok text, t'))
      ↔ if o.changes = true then t.outcome ((o.apply c).save path) = (.ok (), t') else t' = t := by
  have hload : t.outcome (Config.load path) = (.ok c, t) := by
    rw [outcome_load, h]
  unfold configure
  rw [if_neg (by simp [hreset]), outcome_bind_ok hload]
  cases o.changes with
  | true => simp [exists_outcome_map_iff]
  | false => simp [eq_comm]

/-- A `config` command succeeds if there is a configuration to load and the one that it leaves can
be saved, which is done only if that may be another one. -/
theorem succeeds_iff {format : Option OutputFormat} :
    (∃ text, t.outcome (prepare path now ⟨.config o, format⟩) = (.ok (.print text), t'))
      ↔ ∃ c, stored t path = .ok c ∧
        if (o.reset || o.changes) = true then t.outcome ((o.edited c).save path) = (.ok (), t')
        else t' = t := by
  rcases h : stored t path with e | c
  · simp [prepare_of_error h]
  · have hprepare : (∃ text, t.outcome (prepare path now ⟨.config o, format⟩)
        = (.ok (.print text), t')) ↔ ∃ text, t.outcome (configure path o) = (.ok text, t') := by
      refine exists_congr fun text => ?_
      rw [prepare_of_stored h]
      dsimp only
      rw [outcome_bind_eq_ok_iff, outcome_adapt]
      rcases t.outcome (configure path o) with ⟨e | text', t₁⟩ <;> simp [Except.mapError]
    rw [hprepare]
    simp only [Except.ok.injEq, exists_eq_left']
    by_cases hreset : o.reset = true
    · rw [configure_of_reset hreset, edited_of_reset hreset, if_pos (by simp [hreset])]
    · rw [Bool.not_eq_true] at hreset
      rw [configure_of_not_reset hreset h, edited_of_not_reset hreset, hreset,
        Bool.false_or]

end Session

section Run

variable {t t' : FileTree} {path : String} {c : Config} {os : List ConfigOptions}

/-- `config` commands that succeed one after another, at any times and with any formats, and the
files that the last one leaves. -/
inductive Configured (path : String) (t : FileTree) : List ConfigOptions → FileTree → Prop
  | nil : Configured path t [] t
  | snoc {os : List ConfigOptions} {o : ConfigOptions} {t₁ t₂ : FileTree} {now : Int64}
    {format : Option OutputFormat} {text : String} (h : Configured path t os t₁)
    (hok : t₁.outcome (Session.prepare path now ⟨.config o, format⟩) = (.ok (.print text), t₂)) :
    Configured path t (os ++ [o]) t₂

namespace Configured

/-- What is loaded after `config` commands is what they make of the start, but for the rate and the
step, which have been written and read at every saving since they were set. -/
theorem stored_eq (hstart : stored t path = .ok c) (h : Configured path t os t') :
    stored t' path = ((edits os c).rereads (savings setsRate os) (savings setsStep os)).elim
      (.error .configText) .ok := by
  induction h with
  | nil => exact hstart
  | @snoc os o t₁ t₂ now format text h hok ih =>
    obtain ⟨c', hc', hsaved⟩ := Session.succeeds_iff.1 ⟨text, hok⟩
    rw [hc'] at ih
    have hread : (edits os c).rereads (savings setsRate os) (savings setsStep os) = some c' := by
      cases hread : (edits os c).rereads (savings setsRate os) (savings setsStep os) with
      | none =>
        rw [hread] at ih
        cases ih
      | some c'' =>
        rw [hread] at ih
        rw [Except.ok.inj ih]
    rw [edits_concat, savings_concat, savings_concat]
    split_ifs at hsaved with hsaves
    · rw [stored_of_save hsaved, rereads_edited hsaves hread]
    · subst hsaved
      have hstays : ¬ o.saves = true := hsaves
      rw [edited_of_not_saves hstays, savingsAfter_of_not_saves hstays,
        savingsAfter_of_not_saves hstays, hc', hread]
      rfl

/-- A tick rate that is saved without being finite is lost. -/
theorem rereads_of_not_isFinite (hstart : stored t path = .ok c)
    (hrate : ¬ (edits os c).tickRate.isFinite = true) :
    (edits os c).rereads (savings setsRate os) (savings setsStep os) = none := by
  have hsavings : savings setsRate os ≠ 0 := fun hnone => by
    rw [tickRate_edits_of_savings hnone] at hrate
    exact hrate (isFinite_of_stored hstart).1
  rw [Config.rereads, Json.rereads_of_not_isFinite hrate hsavings]
  rfl

/-- A tick rate that is saved without being finite stops every command from then on. -/
theorem prepare_of_not_isFinite (hstart : stored t path = .ok c) (h : Configured path t os t')
    (hrate : ¬ (edits os c).tickRate.isFinite = true) (now : Int64) (i : Invocation) :
    t'.outcome (Session.prepare path now i) = (.error (.error .configText), t') := by
  refine Session.prepare_of_error ?_ i
  rw [h.stored_eq hstart, rereads_of_not_isFinite hstart hrate]
  rfl

/-- What is loaded after `config` commands is what they were started with, changed by each in turn,
exactly if its rate and its step come unchanged through the savings since they were set, as they do
if each is read back as it was written. Otherwise only these two differ, or nothing can be loaded any
more, as after a rate that is infinite or no number. -/
theorem load_exact (hstart : t.outcome (Config.load path) = (.ok c, t))
    (h : Configured path t os t') :
    (t.find? path = none → c = .default)
      ∧ t'.outcome (Config.load path) =
        (((edits os c).rereads (savings setsRate os) (savings setsStep os)).elim
          (.error .configText) .ok, t')
      ∧ (t'.outcome (Config.load path) = (.ok (edits os c), t') ↔
        (edits os c).rereads (savings setsRate os) (savings setsStep os) = some (edits os c))
      ∧ (rereadReal (edits os c).tickRate = some (edits os c).tickRate →
        rereadReal (edits os c).step = some (edits os c).step →
          t'.outcome (Config.load path) = (.ok (edits os c), t'))
      ∧ (¬ (edits os c).tickRate.isFinite = true →
        t'.outcome (Config.load path) = (.error .configText, t')) := by
  have hstored : stored t path = .ok c := by
    rw [outcome_load] at hstart
    exact (Prod.mk.inj hstart).1
  rw [outcome_load, h.stored_eq hstored]
  refine ⟨fun hmissing => ?_, rfl, ?_, fun hrate hstep => ?_, fun hrate => ?_⟩
  · rw [stored, hmissing] at hstored
    exact (Except.ok.inj hstored).symm
  · cases (edits os c).rereads (savings setsRate os) (savings setsStep os) <;> simp
  · rw [Config.rereads_eq_some hrate hstep]
    rfl
  · rw [rereads_of_not_isFinite hstored hrate]
    rfl

/-- A change of the only file there is. -/
theorem snoc_lone {text : Option String} {o : ConfigOptions} (h : Configured "c" t os (lone text))
    (hc : stored (lone text) "c" = .ok c) (hchanges : o.changes = true) :
    Configured "c" t (os ++ [o]) (lone (some (writeIndented (o.edited c)))) := by
  have hdone : (o.reset || o.changes) = true := by rw [hchanges, Bool.or_true]
  have hsave := save_lone text (o.edited c)
  have hok : ∃ shown, (lone text).outcome (Session.prepare "c" 0 ⟨.config o, none⟩)
      = (.ok (.print shown), lone (some (writeIndented (o.edited c)))) :=
    Session.succeeds_iff.2 ⟨c, hc, by rwa [if_pos hdone]⟩
  obtain ⟨shown, hok⟩ := hok
  exact h.snoc hok

/-- `config --set-rate` with a rate. -/
def setRate (x : Float) : ConfigOptions := ⟨false, none, none, some x, none, none, false⟩

/-- `config --set-port 6000`. -/
def setPort : ConfigOptions := ⟨false, none, some 6000, none, none, none, false⟩

theorem load_exact_rates :
    (∃ t', Configured "c" (lone none) [setRate 2.5, setPort] t'
      ∧ t'.outcome (Config.load "c") =
        (.ok { Config.default with tickRate := 2.5, port := 6000 }, t'))
      ∧ ∃ t', Configured "c" (lone none) [setRate 0.09090909090909091] t'
        ∧ t'.outcome (Config.load "c") =
          (.ok { Config.default with tickRate := 0.09090909090909093 }, t') := by
  have hstart : (lone none).outcome (Config.load "c") = (.ok .default, lone none) := by
    rw [outcome_load, stored_lone_none]
  constructor
  · have hrate : rereadReal 2.5 = some 2.5 := rereadReal_of_readsBack (by decide +kernel) rfl
    let c : Config := (setRate 2.5).edited .default
    have hread : c.rereads 1 1 = some c := rereads_eq_some (c := c) hrate rereadReal_one 1 1
    have hstored : stored (lone (some (writeIndented c))) "c" = .ok c := by
      rw [stored_of_save (save_lone none c), hread]
      rfl
    have h : Configured "c" (lone none) [setRate 2.5, setPort] _ :=
      (Configured.nil.snoc_lone stored_lone_none rfl).snoc_lone hstored rfl
    exact ⟨_, h, (load_exact hstart h).2.2.2.1 hrate rereadReal_one⟩
  · -- The digits that are written are read as another double.
    have hrate : Json.rereads 1 0.09090909090909091 = some 0.09090909090909093 := by
      decide +kernel
    have h : Configured "c" (lone none) [setRate 0.09090909090909091] _ :=
      Configured.nil.snoc_lone stored_lone_none rfl
    have hread : (edits [setRate 0.09090909090909091] .default).rereads
        (savings setsRate [setRate 0.09090909090909091])
        (savings setsStep [setRate 0.09090909090909091])
          = some { Config.default with tickRate := 0.09090909090909093 } :=
      rereads_eq_some_iff.2 ⟨_, _, hrate, Json.rereads_eq_some rereadReal_one 1, rfl⟩
    have hload := (load_exact hstart h).2.1
    rw [hread] at hload
    exact ⟨_, h, hload⟩

theorem lost_by_rateNaN :
    Invocation.read ["config", "--set-rate", "nan"] = .ok ⟨.config (setRate Double.nan), none⟩
      ∧ ∃ t', Configured "c" (lone none) [setRate Double.nan] t'
        ∧ t'.outcome (Config.load "c") = (.error .configText, t') := by
  have h : Configured "c" (lone none) [setRate Double.nan] _ := snoc_lone .nil stored_lone_none rfl
  have hlost : ((setRate Double.nan).edited .default).rereads 1 1 = none := by
    have hnan : Json.rereads 1 Double.nan = none :=
      Json.rereads_of_not_isFinite (by decide +kernel) one_ne_zero
    show Config.rereads 1 1 { Config.default with tickRate := Double.nan } = none
    rw [Config.rereads, hnan]
    rfl
  refine ⟨rfl, _, h, ?_⟩
  rw [outcome_load, stored_of_save (save_lone none _), hlost]
  rfl

end Configured

end Run

section Reset

variable {t : FileTree} {path : String} {o : ConfigOptions}

/-- The file of a path can be read, if there is one, and be written with any text. -/
structure Usable (t : FileTree) (path : String) : Prop where
  readable : ∀ node, t.find? path = some node → ∃ text, node = .file text
  writable : ∀ text, ∃ t₁ t', t.makeParent path = some t₁ ∧ t₁.write path text = some t'

namespace Usable

theorem stored_of_read (h : Usable t path)
    (hread : ∀ text, t.find? path = some (.file text) → ∃ c : Config, Document.read text = .ok c) :
    ∃ c, stored t path = .ok c := by
  unfold stored
  rcases hfound : t.find? path with _ | node
  · exact ⟨_, rfl⟩
  · obtain ⟨text, rfl⟩ := h.readable node hfound
    obtain ⟨c, hc⟩ := hread text hfound
    exact ⟨c, by simp [hc]⟩

theorem exists_save (h : Usable t path) (c : Config) :
    ∃ t', t.outcome (c.save path) = (.ok (), t') := by
  obtain ⟨t₁, t', hparent, hwrite⟩ := h.writable (writeIndented c)
  exact ⟨t', outcome_save_iff.2 ⟨t₁, hparent, hwrite⟩⟩

/-- A reset leaves the defaults if there is no configuration or one that can be loaded. Any other
file stops it, as it stops every command, and stays. -/
theorem reset_exact (hreset : o.reset = true) (h : Usable t path) (now : Int64)
    (format : Option OutputFormat) :
    ((∀ text, t.find? path = some (.file text) → ∃ c : Config, Document.read text = .ok c) →
        ∃ text t', t.outcome (Session.prepare path now ⟨.config o, format⟩) = (.ok (.print text), t')
          ∧ t'.outcome (Config.load path) = (.ok .default, t'))
      ∧ ∀ text cause, t.find? path = some (.file text) →
        (Document.read text : Except Cause Config) = .error cause →
        t.outcome (Session.prepare path now ⟨.config o, format⟩)
          = (.error (.error .configText), t) := by
  constructor
  · intro hread
    obtain ⟨c, hc⟩ := h.stored_of_read hread
    obtain ⟨t', hsave⟩ := h.exists_save .default
    have hsaved : t.outcome ((o.edited c).save path) = (.ok (), t') := by
      rwa [edited_of_reset hreset]
    have hdone : (o.reset || o.changes) = true := by rw [hreset, Bool.true_or]
    obtain ⟨text, hok⟩ := Session.succeeds_iff.2 ⟨c, hc, by rwa [if_pos hdone]⟩
    refine ⟨text, t', hok, ?_⟩
    rw [outcome_load, stored_of_save hsave, rereads_default]
    rfl
  · intro text cause hfound hread
    refine Session.prepare_of_error ?_ _
    rw [stored, hfound]
    simp [hread]

theorem usable_lone (text : Option String) : Usable (lone text) "c" where
  readable node h := by
    rw [find?_lone] at h
    obtain ⟨text, -, rfl⟩ := Option.map_eq_some_iff.1 h
    exact ⟨text, rfl⟩
  writable new := ⟨_, _, makeParent_lone text, write_lone text new⟩

/-- `config --reset`. -/
def plainReset : ConfigOptions := ⟨false, none, none, none, none, none, true⟩

/-- A file that another port was written to. -/
def otherPort : String := writeIndented { Config.default with port := 6000 }

theorem reset_exact_otherPort : Usable (lone (some otherPort)) "c"
    ∧ ∃ text t', (lone (some otherPort)).outcome (Session.prepare "c" 0 ⟨.config plainReset, none⟩)
        = (.ok (.print text), t')
      ∧ t'.outcome (Config.load "c") = (.ok .default, t') := by
  refine ⟨usable_lone _, (reset_exact rfl (usable_lone _) 0 none).1 fun text htext => ?_⟩
  rw [find?_lone] at htext
  obtain rfl := FileNode.file.inj (Option.some.inj htext)
  have hread := read_writeIndented { Config.default with port := 6000 }
  rw [rereads_eq_some (c := { Config.default with port := 6000 }) rereadReal_one rereadReal_one 1 1]
    at hread
  exact ⟨_, toOption_eq_some_iff.1 hread⟩

theorem reset_refused :
    Invocation.read ["config", "--reset"] = .ok ⟨.config plainReset, none⟩
      ∧ Usable (lone (some "\x7b")) "c"
      ∧ (lone (some "\x7b")).outcome (Session.prepare "c" 0 ⟨.config plainReset, none⟩)
        = (.error (.error .configText), lone (some "\x7b")) := by
  refine ⟨rfl, usable_lone _, Session.prepare_of_error ?_ _⟩
  rw [stored_lone_some]
  rfl

end Usable

end Reset

end PitFleet.CommandLine
