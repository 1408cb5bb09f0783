import PitFleet.Files

/-!
# What a computation on files comes to

The files that a computation is run on answer it at once: each request is what it is of a tree
(`FileTree.outcome_write`, ...), and one computation after another is run on the files that the
first one leaves (`FileTree.outcome_bind`).
-/

namespace PitFleet.FileTree

/-- What a computation on files comes to, and the files after it. -/
def outcome {ε β : Type} (t : FileTree) (x : ExceptT ε (StateM FileTree) β) :
    Except ε β × FileTree :=
  x.run.run t

variable {ε β γ : Type} {t t' : FileTree}

@[simp]
theorem outcome_pure (t : FileTree) (b : β) :
    t.outcome (pure b : ExceptT ε (StateM FileTree) β) = (.ok b, t) :=
  rfl

@[simp]
theorem outcome_throw (t : FileTree) (e : ε) :
    t.outcome (throw e : ExceptT ε (StateM FileTree) β) = (.error e, t) :=
  rfl

theorem outcome_bind (t : FileTree) (x : ExceptT ε (StateM FileTree) β)
    (f : β → ExceptT ε (StateM FileTree) γ) :
    t.outcome (x >>= f) = match t.outcome x with
      | (.ok b, t') => t'.outcome (f b)
      | (.error e, t') => (.error e, t') := by
  have h : t.outcome (x >>= f) = (ExceptT.bindCont f (t.outcome x).1) (t.outcome x).2 := rfl
  rw [h]
  rcases t.outcome x with ⟨e | b, t'⟩ <;> rfl

section Bind

variable {x : ExceptT ε (StateM FileTree) β} {f : β → ExceptT ε (StateM FileTree) γ}

theorem outcome_bind_ok {b : β} (h : t.outcome x = (.ok b, t')) :
    t.outcome (x >>= f) = t'.outcome (f b) := by
  rw [outcome_bind, h]

theorem outcome_bind_error {e : ε} (h : t.outcome x = (.error e, t')) :
    t.outcome (x >>= f) = (.error e, t') := by
  rw [outcome_bind, h]

theorem outcome_bind_eq_ok_iff {c : γ} :
    t.outcome (x >>= f) = (.ok c, t')
      ↔ ∃ b t₁, t.outcome x = (.ok b, t₁) ∧ t₁.outcome (f b) = (.ok c, t') := by
  rw [outcome_bind]
  rcases t.outcome x with ⟨e | b, t₁⟩ <;> simp [and_assoc]

end Bind

/-- What a computation without a result is made to give says only that it was done. -/
theorem exists_outcome_map_iff {x : ExceptT ε (StateM FileTree) Unit} {g : Unit → γ} :
    (∃ c, t.outcome (g <$> x) = (.ok c, t')) ↔ t.outcome x = (.ok (), t') := by
  have hmap : t.outcome (g <$> x) = t.outcome (x >>= fun b => pure (g b)) := rfl
  simp only [hmap, outcome_bind]
  rcases t.outcome x with ⟨e | ⟨⟩, t₁⟩ <;> simp

theorem outcome_adapt {ε' : Type} (t : FileTree) (f : ε → ε')
    (x : ExceptT ε (StateM FileTree) β) :
    t.outcome (ExceptT.adapt f x) = ((t.outcome x).1.mapError f, (t.outcome x).2) :=
  rfl

theorem outcome_lift (t : FileTree) (x : StateM FileTree β) :
    t.outcome (ExceptT.lift x : ExceptT ε (StateM FileTree) β) = (.ok (x.run t).1, (x.run t).2) :=
  rfl

theorem outcome_present (t : FileTree) (path : String) :
    t.outcome (Files.present path : ExceptT ε (StateM FileTree) Bool)
      = (.ok (t.find? path).isSome, t) :=
  rfl

theorem outcome_read (t : FileTree) (path : String) :
    t.outcome (Files.read path : ExceptT ε (StateM FileTree) (Option String))
      = (.ok (match t.find? path with
        | some (.file text) => some text
        | _ => none), t) :=
  rfl

theorem run_makeParent (t : FileTree) (path : String) :
    (Files.makeParent path : StateM FileTree Bool).run t
      = ((t.makeParent path).isSome, (t.makeParent path).getD t) := by
  cases h : t.makeParent path <;> simp [Files.makeParent, StateT.run, h]

theorem run_write (t : FileTree) (path text : String) :
    (Files.write path text : StateM FileTree Bool).run t
      = ((t.write path text).isSome, (t.write path text).getD t) := by
  cases h : t.write path text <;> simp [Files.write, StateT.run, h]

theorem outcome_makeParent (t : FileTree) (path : String) :
    t.outcome (Files.makeParent path : ExceptT ε (StateM FileTree) Bool)
      = (.ok (t.makeParent path).isSome, (t.makeParent path).getD t) := by
  have h := t.outcome_lift (ε := ε) (Files.makeParent path)
  rwa [run_makeParent] at h

theorem outcome_write (t : FileTree) (path text : String) :
    t.outcome (Files.write path text : ExceptT ε (StateM FileTree) Bool)
      = (.ok (t.write path text).isSome, (t.write path text).getD t) := by
  have h := t.outcome_lift (ε := ε) (Files.write path text)
  rwa [run_write] at h

end PitFleet.FileTree
