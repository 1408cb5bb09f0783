import Mathlib
import PitFleet.Config
import PitFleet.Proofs.Files.Outcome
import PitFleet.Proofs.Files.Tree
import PitFleet.Proofs.Json.Finite
import PitFleet.Proofs.Json.Lawful

/-!
# What a configuration file keeps

The text of a configuration is read as the configuration with its doubles read anew
(`Config.read_writeIndented`), and those of a configuration that was read are finite
(`Config.isFinite_of_read`). So what is loaded after a configuration was saved may differ from it in
these, and if one of them is lost nothing can be loaded any more (`Config.stored_of_save`).
-/

namespace PitFleet

open Json Document LawfulDocument

instance : LawfulDocument OutputFormat where
  levels := 0
  fits f _ _ := .choice (by cases f <;> decide)
  ofJson?_toJson := OutputFormat.ofName?_name

namespace Config

instance : LawfulDocument Config where
  levels := 1
  fits c _ := fits_record (fun h =>
    filled_fieldOr _ default.tickRate c.tickRate h <|
    filled_fieldOr _ default.step c.step h <|
    filled_fieldOr _ default.host c.host h <|
    filled_fieldOr _ default.port c.port h <|
    filled_fieldOr _ default.format c.format h <|
    filled_fieldOr _ default.reconnectInterval c.reconnectInterval h <|
    filled_optionalText _ c.scenarioPath .nil) (by decide)
  ofJson?_toJson c := by
    rcases c with ⟨tickRate, step, host, port, format, interval, _ | path⟩ <;>
      simp [toJson, ofJson?, OutputFormat.ofName?_name]

/-- The configuration when its rate and its step have been written and read so many times. -/
def rereads (rateTimes stepTimes : ℕ) (c : Config) : Option Config := do
  let tickRate ← Json.rereads rateTimes c.tickRate
  let step ← Json.rereads stepTimes c.step
  return { c with tickRate, step }

theorem rereads_eq_some_iff {rateTimes stepTimes : ℕ} {c c' : Config} :
    c.rereads rateTimes stepTimes = some c' ↔ ∃ tickRate step,
      Json.rereads rateTimes c.tickRate = some tickRate ∧ Json.rereads stepTimes c.step = some step
        ∧ c' = { c with tickRate, step } := by
  simp only [rereads, Option.bind_eq_bind, Option.bind_eq_some_iff, Option.pure_def,
    Option.some.injEq]
  constructor
  · rintro ⟨tickRate, hrate, step, hstep, rfl⟩
    exact ⟨tickRate, step, hrate, hstep, rfl⟩
  · rintro ⟨tickRate, step, hrate, hstep, rfl⟩
    exact ⟨tickRate, hrate, step, hstep, rfl⟩

theorem reread_toJson (c : Config) : (toJson c).reread = (c.rereads 1 1).map toJson := by
  rw [rereads, rereads_one, rereads_one]
  rcases c with ⟨tickRate, step, host, port, format, interval, _ | path⟩ <;>
    simp only [toJson, reread, rereadMembers] <;>
    rcases rereadReal tickRate with _ | x <;> rcases rereadReal step with _ | y <;> rfl

theorem read_writeIndented (c : Config) :
    (Document.read (writeIndented c) : Except Cause Config).toOption = c.rereads 1 1 := by
  rw [writeIndented, read_render (by decide), reread_toJson]
  cases c.rereads 1 1 with
  | none => rfl
  | some c' => exact ofJson?_toJson c'

theorem rereadReal_one : rereadReal 1.0 = some 1.0 :=
  rereadReal_of_readsBack (by decide +kernel) rfl

/-- A configuration comes back as it is if its rate and its step do. -/
theorem rereads_eq_some {c : Config} (hrate : rereadReal c.tickRate = some c.tickRate)
    (hstep : rereadReal c.step = some c.step) (rateTimes stepTimes : ℕ) :
    c.rereads rateTimes stepTimes = some c :=
  rereads_eq_some_iff.2 ⟨_, _, Json.rereads_eq_some hrate _, Json.rereads_eq_some hstep _, rfl⟩

theorem rereads_default (rateTimes stepTimes : ℕ) :
    default.rereads rateTimes stepTimes = some default :=
  rereads_eq_some (c := default) rereadReal_one rereadReal_one rateTimes stepTimes

theorem settled_fieldOr {τ : Type} [Document τ] (name : String) {value : τ}
    (hshape : (shape τ).Settled) (hvalue : (toJson value).Finite) :
    (fieldOr name value).Settled := by
  refine .mk hshape fun v hv => ?_
  obtain rfl := Presence.orElse.inj hv
  exact hvalue

theorem settled_shape : (shape Config).Settled := by
  have hone : (toJson (1.0 : Float)).Finite := by
    intro x hx
    obtain rfl := List.mem_singleton.1 hx
    decide +kernel
  refine .record ?_
  simp only [List.forall_mem_cons]
  exact ⟨settled_fieldOr _ .real hone, settled_fieldOr _ .real hone, settled_fieldOr _ .text nofun,
    settled_fieldOr _ (.integer ..) nofun, settled_fieldOr _ (.choice _) nofun,
    settled_fieldOr _ (.integer ..) nofun, .mk .text nofun, List.forall_mem_nil _⟩

theorem eq_real_of_ofJson? {v : Json} {x : Float} (h : ofJson? v = some x) : v = .real x := by
  cases v with
  | real y =>
    obtain rfl := Option.some.inj h
    rfl
  | _ => cases h

/-- The doubles of a configuration are those of its JSON form. -/
theorem reals_of_ofJson? {v : Json} {c : Config} :
    ofJson? v = some c → c.tickRate ∈ v.reals ∧ c.step ∈ v.reals := by
  intro h
  simp only [ofJson?] at h
  split at h
  · simp only [Option.bind_eq_bind, Option.bind_eq_some_iff, Option.pure_def,
      Option.some.injEq] at h
    obtain ⟨tickRate, htickRate, step, hstep, -, -, -, -, -, -, -, -, -, -, rfl⟩ := h
    rw [eq_real_of_ofJson? htickRate, eq_real_of_ofJson? hstep]
    simp [reals, realsOfMembers]
  · cases h

theorem isFinite_of_read {text : String} {c : Config} (h : Document.read text = .ok c) :
    c.tickRate.isFinite = true ∧ c.step.isFinite = true := by
  obtain ⟨v, hv, h⟩ := bind_eq_ok_iff.1 h
  have hfinite := Shape.finite_of_read settled_shape hv
  split at h
  · rename_i c' hc
    obtain rfl := Except.ok.inj h
    obtain ⟨htickRate, hstep⟩ := reals_of_ofJson? hc
    exact ⟨hfinite _ htickRate, hfinite _ hstep⟩
  · cases h

section Files

open FileTree

variable {t t' : FileTree} {path : String} {c : Config}

/-- The configuration that the files hold under a path. -/
def stored (t : FileTree) (path : String) : Except Error Config :=
  match t.find? path with
  | none => .ok default
  | some (.directory _) => .error .file
  | some (.file text) =>
    match Document.read text with
    | .ok c => .ok c
    | .error _ => .error .configText

theorem outcome_load (t : FileTree) (path : String) :
    t.outcome (load path) = (stored t path, t) := by
  unfold load stored
  rw [outcome_bind_ok (t.outcome_present path)]
  have hread := t.outcome_read (ε := Error) path
  rcases hfound : t.find? path with _ | text | entries <;> simp only [hfound] at hread ⊢
  · rfl
  · refine (outcome_bind_ok hread).trans ?_
    rcases hc : (Document.read text : Except Cause Config) with e | c <;> simp [hc]
  · exact outcome_bind_ok hread

theorem outcome_save_iff :
    t.outcome (c.save path) = (.ok (), t')
      ↔ ∃ t₁, t.makeParent path = some t₁ ∧ t₁.write path (writeIndented c) = some t' := by
  unfold save
  rw [outcome_bind_ok (t.outcome_makeParent path)]
  rcases t.makeParent path with _ | t₁
  · simp
  · have hwrite := t₁.outcome_write (ε := Error) path (writeIndented c)
    simp only [Option.isSome_some, Bool.not_true, Bool.false_eq_true, if_false, Option.getD_some,
      Option.some.injEq, exists_eq_left']
    rw [outcome_bind_ok hwrite]
    rcases t₁.write path (writeIndented c) with _ | t₂ <;> simp

theorem isFinite_of_stored (h : stored t path = .ok c) :
    c.tickRate.isFinite = true ∧ c.step.isFinite = true := by
  unfold stored at h
  split at h
  · obtain rfl := Except.ok.inj h
    decide +kernel
  · cases h
  · split at h
    · rename_i hread
      obtain rfl := Except.ok.inj h
      exact isFinite_of_read hread
    · cases h

/-- What is loaded after a configuration was saved. -/
theorem stored_of_save (h : t.outcome (c.save path) = (.ok (), t')) :
    stored t' path = (c.rereads 1 1).elim (.error .configText) .ok := by
  obtain ⟨t₁, -, hwrite⟩ := outcome_save_iff.1 h
  rw [stored, find?_write hwrite, ← read_writeIndented]
  dsimp only
  cases (Document.read (writeIndented c) : Except Cause Config) <;> rfl

theorem save_lone (text : Option String) (c : Config) :
    (lone text).outcome (c.save "c") = (.ok (), lone (some (writeIndented c))) :=
  outcome_save_iff.2 ⟨_, makeParent_lone text, write_lone text _⟩

theorem stored_lone_none : stored (lone none) "c" = .ok default := by
  rw [stored, find?_lone]
  rfl

theorem stored_lone_some {text : String} : stored (lone (some text)) "c" =
    (Document.read text : Except Cause Config).mapError fun _ => .configText := by
  rw [stored, find?_lone]
  dsimp only [Option.map_some]
  rcases (Document.read text : Except Cause Config) with e | c <;> rfl

end Files

end Config

end PitFleet
