import Mathlib
import PitFleet.Config
import PitFleet.Proofs.Files.Outcome
import PitFleet.Proofs.Files.Tree
import PitFleet.Proofs.Toml.Documents

/-!
# What a scenario file keeps

A scenario is read back from its text as it was, whatever is left out in it and however long its
lists are (`Scenario.readToml?_of_writeToml?`). Only a route index beyond the whole numbers of TOML
keeps it from being written, and then no file is touched (`Scenario.load_save`).
-/

namespace PitFleet

open Json Document TomlDocument
open Toml hiding ofJson?

instance : TomlDocument (Waypoint Float) where
  distinct := .record (by decide) <|
    distinct_cons distinct <| distinct_cons distinct <| distinct_cons distinct <|
    distinct_cons distinct <| List.forall_mem_nil _
  InRange _ := True
  ne_null _ := nofun
  ofJson?_toJson _ := rfl
  exists_ofJson?_iff w := by
    refine exists_ofJson?_object_iff.trans ?_
    simp [writable_toJson, InRange]
  reads {w} _ _ h hagrees :=
    Kept.reads
      (kept_field _ w.name <|
        kept_field _ w.latitude <|
        kept_field _ w.longitude <|
        kept_fieldOr _ 0.0 w.altitude .nil) (by decide) h hagrees

instance : TomlDocument (VehicleSetup Float) where
  distinct := .record (by decide) <|
    distinct_cons distinct <| distinct_cons distinct <| distinct_cons distinct <|
    distinct_cons distinct <| distinct_cons distinct <| distinct_cons distinct <|
    distinct_cons distinct <| distinct_cons distinct <| distinct_cons distinct <|
    distinct_cons distinct <| distinct_cons distinct <| distinct_cons distinct <|
    distinct_cons distinct <| List.forall_mem_nil _
  InRange s := InRange s.waypointIndex
  ne_null _ := nofun
  ofJson?_toJson s :=
    bind_of_eq_some (ofJson?_toJson s.id) <|
    bind_of_eq_some (ofJson?_toJson s.category) <|
    bind_of_eq_some (ofJson?_toJson s.start) <|
    bind_of_eq_some (ofJson?_toJson s.route) <|
    bind_of_eq_some (ofJson?_toJson s.waypointIndex) <|
    bind_of_eq_some (ofJson?_option s.cycle) <|
    bind_of_eq_some (ofJson?_toJson s.targetSpeed) <|
    bind_of_eq_some (ofJson?_toJson s.speed) <|
    bind_of_eq_some (ofJson?_option s.heading) <|
    bind_of_eq_some (ofJson?_toJson s.waitSeconds) <|
    bind_of_eq_some (ofJson?_option s.arrivalThreshold) <|
    bind_of_eq_some (ofJson?_toJson s.payload) <|
    bind_of_eq_some (ofJson?_toJson s.active) rfl
  exists_ofJson?_iff s := by
    refine exists_ofJson?_object_iff.trans ?_
    simp [writable_toJson, writable_option, InRange]
  reads {s} _ _ h hagrees :=
    Kept.reads
      (kept_field _ s.id <|
        kept_field _ s.category <|
        kept_field _ s.start <|
        kept_fieldOr _ [] s.route <|
        kept_fieldOr _ 0 s.waypointIndex <|
        kept_optionalField _ s.cycle <|
        kept_fieldOr _ 0.0 s.targetSpeed <|
        kept_fieldOr _ 0.0 s.speed <|
        kept_optionalField _ s.heading <|
        kept_fieldOr _ 0.0 s.waitSeconds <|
        kept_optionalField _ s.arrivalThreshold <|
        kept_fieldOr _ 0.0 s.payload <|
        kept_fieldOr _ true s.active .nil) (by decide) h hagrees

namespace Scenario

instance : TomlDocument (Scenario Float) where
  distinct := .record (by decide) <|
    distinct_cons distinct <| distinct_cons distinct <| distinct_cons distinct <|
    List.forall_mem_nil _
  InRange s := ∀ v ∈ s.vehicles, InRange v
  ne_null _ := nofun
  ofJson?_toJson s :=
    bind_of_eq_some (ofJson?_option s.name) <|
    bind_of_eq_some (ofJson?_toJson s.waypoints) <|
    bind_of_eq_some (ofJson?_toJson s.vehicles) rfl
  exists_ofJson?_iff s := by
    refine exists_ofJson?_object_iff.trans ?_
    simp [writable_toJson, writable_option, InRange]
  reads {s} _ _ h hagrees :=
    Kept.reads
      (kept_optionalField _ s.name <|
        kept_fieldOr _ [] s.waypoints <|
        kept_fieldOr _ [] s.vehicles .nil) (by decide) h hagrees

/-- Every route index is a whole number of TOML. -/
def IndicesFit (s : Scenario Float) : Prop :=
  ∀ v ∈ s.vehicles, (v.waypointIndex.toNat : ℤ) ≤ Int64.maxValue.toInt

theorem exists_text_iff {s : Scenario Float} :
    (∃ text, writeToml? s = some text) ↔ s.IndicesFit :=
  exists_writeToml?_iff rfl

section Files

open FileTree

variable {t t₁ t' : FileTree} {path : String} {s : Scenario Float} {text : String}

theorem outcome_load_of_file (hfile : t.find? path = some (.file text))
    (hread : readToml? text = some s) : t.outcome (load path) = (.ok s, t) := by
  unfold load
  rw [outcome_bind_ok (t.outcome_present path), hfile]
  have hfound := t.outcome_read (ε := Error) path
  rw [hfile] at hfound
  refine (outcome_bind_ok hfound).trans ?_
  simp [hread]

theorem outcome_save_of_none (hparent : t.makeParent path = none) :
    t.outcome (s.save path) = (.error .file, t) := by
  unfold save
  rw [outcome_bind_ok (t.outcome_makeParent path), hparent]
  simp

/-- A scenario that has no text is refused before its file is opened. -/
theorem outcome_save_of_no_text (hparent : t.makeParent path = some t₁)
    (htext : writeToml? s = none) : t.outcome (s.save path) = (.error .scenarioForm, t₁) := by
  unfold save
  rw [outcome_bind_ok (t.outcome_makeParent path), hparent, htext]
  simp

theorem outcome_save_of_text (hparent : t.makeParent path = some t₁)
    (htext : writeToml? s = some text) :
    t.outcome (s.save path) = (if (t₁.write path text).isSome then .ok () else .error .file,
      (t₁.write path text).getD t₁) := by
  unfold save
  rw [outcome_bind_ok (t.outcome_makeParent path), hparent, htext]
  have hwrite := t₁.outcome_write (ε := Error) path text
  simp only [Option.isSome_some, Bool.not_true, Bool.false_eq_true, if_false, Option.getD_some]
  refine (outcome_bind_ok hwrite).trans ?_
  rcases t₁.write path text with _ | t₂ <;> simp

/-- A scenario that is saved leaves its text in its file. -/
theorem exists_text_of_save (h : t.outcome (s.save path) = (.ok (), t')) :
    ∃ text, writeToml? s = some text ∧ t'.find? path = some (.file text) := by
  rcases hparent : t.makeParent path with _ | t₁
  · cases (outcome_save_of_none hparent).symm.trans h
  · rcases htext : writeToml? s with _ | text
    · cases (outcome_save_of_no_text hparent htext).symm.trans h
    · rw [outcome_save_of_text hparent htext] at h
      rcases hwrite : t₁.write path text with _ | t₂
      · simp [hwrite] at h
      · simp only [hwrite, Option.isSome_some, if_true, Option.getD_some, Prod.mk.injEq,
          true_and] at h
        exact ⟨text, rfl, find?_write (h ▸ hwrite)⟩

theorem outcome_openFleet (c : Config) (h : t.outcome (load path) = (.ok s, t)) :
    t.outcome (c.openFleet (some path)) = (s.fleet, t) := by
  have hload : t.outcome (ExceptT.adapt Failure.error (load path)) = (.ok s, t) := by
    rw [outcome_adapt, h]
    rfl
  refine (outcome_bind_ok hload).trans ?_
  cases s.fleet <;> rfl

/-- To save a scenario that has no text leaves every file as it was. -/
theorem find?_file_save (htext : writeToml? s = none) {other : String}
    (h : t.find? other = some (.file text)) :
    (t.outcome (s.save path)).2.find? other = some (.file text) := by
  rcases hparent : t.makeParent path with _ | t₁
  · rwa [outcome_save_of_none hparent]
  · rw [outcome_save_of_no_text hparent htext]
    exact find?_file_makeParent hparent h

/-- A scenario whose route indices fit is saved wherever a file can be put, and what was saved is
loaded as it was, so that it gives the same fleet or the same error. Any other scenario is refused
once the directories are made, and every file stays as it was. -/
theorem load_save (s : Scenario Float) (t : FileTree) (path : String)
    (hread : ∀ entries, toToml? s = some entries → Survives entries) :
    (s.IndicesFit → t.Takes path → ∃ t', t.outcome (s.save path) = (.ok (), t'))
      ∧ (∀ t', t.outcome (s.save path) = (.ok (), t') →
        t'.outcome (load path) = (.ok s, t')
          ∧ ∀ c : Config, t'.outcome (c.openFleet (some path)) = (s.fleet, t'))
      ∧ (¬ s.IndicesFit →
        ((t.makeParent path).isSome → (t.outcome (s.save path)).1 = .error .scenarioForm)
          ∧ ∀ other text, t.find? other = some (.file text) →
            (t.outcome (s.save path)).2.find? other = some (.file text)) := by
  refine ⟨fun hfit hpath => ?_, fun t' h => ?_, fun hfit => ?_⟩
  · obtain ⟨t₁, hparent, hwrite⟩ := hpath
    obtain ⟨text, htext⟩ := exists_text_iff.2 hfit
    obtain ⟨t', ht'⟩ := hwrite text
    refine ⟨t', ?_⟩
    rw [outcome_save_of_text hparent htext, ht']
    rfl
  · obtain ⟨text, htext, hfile⟩ := exists_text_of_save h
    have hload := outcome_load_of_file hfile (readToml?_of_writeToml? hread htext)
    exact ⟨hload, fun c => outcome_openFleet c hload⟩
  · have htext : writeToml? s = none := by
      rwa [← exists_text_iff, ← Option.isSome_iff_exists, Option.not_isSome_iff_eq_none] at hfit
    refine ⟨fun hpath => ?_, fun other text h => find?_file_save htext h⟩
    obtain ⟨t₁, hparent⟩ := Option.isSome_iff_exists.1 hpath
    rw [outcome_save_of_no_text hparent htext]

/-- Some fields are left out and the route index is the greatest that fits. -/
def last : Scenario Float where
  name := some "last"
  waypoints := [⟨"A", -20.0, -44.5, 0.0⟩]
  vehicles := [
    { id := "H"
      category := "haul_truck"
      start := "A"
      route := ["A"]
      waypointIndex := 9223372036854775807
      cycle := none
      targetSpeed := 30.0
      speed := 0.0
      heading := some 90.0
      waitSeconds := 0.0
      arrivalThreshold := none
      payload := 0.5
      active := false }]

/-- One index further. -/
def past : Scenario Float :=
  { last with vehicles := last.vehicles.map ({ · with waypointIndex := 9223372036854775808 }) }

theorem survives_last (entries : List (String × Toml)) (h : toToml? last = some entries) :
    Survives entries := by
  obtain rfl := Option.some.inj h
  rw [survives_iff, Toml.read?, Toml.render, String.toList_ofList]
  decide +kernel

theorem load_save_last :
    (∃ t', (FileTree.lone none).outcome (last.save "c") = (.ok (), t')
      ∧ t'.outcome (load "c") = (.ok last, t'))
      ∧ ((FileTree.lone (some "")).outcome (past.save "c")).1 = .error .scenarioForm
      ∧ ((FileTree.lone (some "")).outcome (past.save "c")).2.find? "c" = some (.file "") := by
  have hlast : last.IndicesFit := List.forall_mem_singleton.2 (by decide)
  have hpast : ¬ past.IndicesFit := fun h => absurd (h _ List.mem_cons_self) (by decide)
  obtain ⟨hsaves, hloads, -⟩ := load_save last (FileTree.lone none) "c" survives_last
  obtain ⟨-, -, hrefused⟩ := load_save past (FileTree.lone (some "")) "c" nofun
  obtain ⟨t', hsave⟩ := hsaves hlast (takes_lone none)
  have hparent := Option.isSome_of_eq_some (makeParent_lone (some ""))
  exact ⟨⟨t', hsave, (hloads t' hsave).1⟩, (hrefused hpast).1 hparent,
    (hrefused hpast).2 "c" "" (find?_lone _)⟩

end Files

end Scenario

end PitFleet
