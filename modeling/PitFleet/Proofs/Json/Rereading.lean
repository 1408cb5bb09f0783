import Mathlib.Data.List.Basic
import PitFleet.Json.Shape
import PitFleet.Proofs.Json.Doubles

/-!
# What a value becomes when its text is read

Whatever else a value holds comes back from its text as it was, but each of its doubles is read anew
and may have become another one, or none at all (`reread`). A value comes back as it is if all its
doubles do (`reread_eq_some`), and not at all if one of them does not (`reread_eq_none`). A double
that is written and read again and again (`rereads`) stays what it is if it is read back once.
-/

namespace PitFleet.Json

/-- The double that is read where one was written, if there is one: what is not finite is written as
null, and what is read may be beyond all doubles. -/
def rereadReal (x : Float) : Option Float :=
  if x.isFinite then (textNumber x).map Number.toReal else none

theorem rereadReal_of_readsBack {x : Float} (hx : x.isFinite = true) (h : ReadsBack x) :
    rereadReal x = some x := by
  have hnumber : textNumber x = some (.real x) := by rw [textNumber, h]
  rw [rereadReal, if_pos hx, hnumber]
  rfl

theorem rereadReal_of_not_isFinite {x : Float} (hx : ¬ x.isFinite = true) : rereadReal x = none :=
  if_neg hx

section Rounds

/-- What a double becomes when it is written and read so many times. -/
def rereads : ℕ → Float → Option Float
  | 0, x => some x
  | n + 1, x => (rereadReal x).bind (rereads n)

theorem rereads_one (x : Float) : rereads 1 x = rereadReal x := by
  rw [rereads]
  cases rereadReal x <;> rfl

theorem rereads_succ (n : ℕ) (x : Float) : rereads (n + 1) x = (rereads n x).bind rereadReal := by
  induction n generalizing x with
  | zero => exact rereads_one x
  | succ n ih =>
    rw [rereads, rereads, Option.bind_assoc]
    exact Option.bind_congr fun y _ => ih y

theorem rereads_eq_some {x : Float} (h : rereadReal x = some x) (n : ℕ) :
    rereads n x = some x := by
  induction n with
  | zero => rfl
  | succ n ih => rw [rereads_succ, ih, Option.bind_some, h]

theorem rereads_of_not_isFinite {x : Float} (hx : ¬ x.isFinite = true) {n : ℕ} (hn : n ≠ 0) :
    rereads n x = none := by
  obtain ⟨n, rfl⟩ := Nat.exists_eq_succ_of_ne_zero hn
  rw [rereads, rereadReal_of_not_isFinite hx]
  rfl

end Rounds

mutual

/-- The doubles of a value, in order. -/
def reals : Json → List Float
  | real x => [x]
  | array items => realsOfItems items
  | object members => realsOfMembers members
  | _ => []

def realsOfItems : List Json → List Float
  | [] => []
  | item :: items => item.reals ++ realsOfItems items

def realsOfMembers : List (String × Json) → List Float
  | [] => []
  | (_, value) :: members => value.reals ++ realsOfMembers members

end

mutual

/-- A value with every double as it is read where it was written. -/
def reread : Json → Option Json
  | real x => .real <$> rereadReal x
  | array items => .array <$> rereadItems items
  | object members => .object <$> rereadMembers members
  | v => some v

def rereadItems : List Json → Option (List Json)
  | [] => some []
  | item :: items => return (← item.reread) :: (← rereadItems items)

def rereadMembers : List (String × Json) → Option (List (String × Json))
  | [] => some []
  | (key, value) :: members => return (key, ← value.reread) :: (← rereadMembers members)

end

section Same

mutual

theorem reread_eq_some : ∀ {v : Json}, (∀ x ∈ v.reals, rereadReal x = some x) → v.reread = some v
  | null, _ | bool _, _ | integer _, _ | string _, _ => rfl
  | real x, h => by
    rw [reread, h x List.mem_cons_self]
    rfl
  | array items, h => by
    rw [reread, rereadItems_eq_some h]
    rfl
  | object members, h => by
    rw [reread, rereadMembers_eq_some h]
    rfl

theorem rereadItems_eq_some : ∀ {items : List Json},
    (∀ x ∈ realsOfItems items, rereadReal x = some x) → rereadItems items = some items
  | [], _ => rfl
  | item :: items, h => by
    obtain ⟨hitem, hitems⟩ := List.forall_mem_append.1 h
    rw [rereadItems, reread_eq_some hitem, rereadItems_eq_some hitems]
    rfl

theorem rereadMembers_eq_some : ∀ {members : List (String × Json)},
    (∀ x ∈ realsOfMembers members, rereadReal x = some x) → rereadMembers members = some members
  | [], _ => rfl
  | (key, value) :: members, h => by
    obtain ⟨hvalue, hmembers⟩ := List.forall_mem_append.1 h
    rw [rereadMembers, reread_eq_some hvalue, rereadMembers_eq_some hmembers]
    rfl

end

end Same

section Lost

variable {item value : Json} {items : List Json} {key : String} {members : List (String × Json)}

theorem reread_array_eq_none (h : rereadItems items = none) : (array items).reread = none := by
  rw [reread, h]
  rfl

theorem reread_object_eq_none (h : rereadMembers members = none) :
    (object members).reread = none := by
  rw [reread, h]
  rfl

theorem rereadItems_cons_eq_none (h : item.reread = none ∨ rereadItems items = none) :
    rereadItems (item :: items) = none := by
  rw [rereadItems]
  rcases h with h | h <;> rw [h]
  · rfl
  · cases item.reread <;> rfl

theorem rereadMembers_cons_eq_none (h : value.reread = none ∨ rereadMembers members = none) :
    rereadMembers ((key, value) :: members) = none := by
  rw [rereadMembers]
  rcases h with h | h <;> rw [h]
  · rfl
  · cases value.reread <;> rfl

theorem rereadMembers_eq_none_of_tail (key : String) (value : Json)
    (h : rereadMembers members = none) : rereadMembers ((key, value) :: members) = none :=
  rereadMembers_cons_eq_none (.inr h)

mutual

theorem reread_eq_none {x : Float} (hx : rereadReal x = none) : ∀ {v : Json}, x ∈ v.reals →
    v.reread = none
  | null, h | bool _, h | integer _, h | string _, h => by cases h
  | real y, h => by
    obtain rfl := List.mem_singleton.1 h
    rw [reread, hx]
    rfl
  | array items, h => reread_array_eq_none (rereadItems_eq_none hx h)
  | object members, h => reread_object_eq_none (rereadMembers_eq_none hx h)

theorem rereadItems_eq_none {x : Float} (hx : rereadReal x = none) : ∀ {items : List Json},
    x ∈ realsOfItems items → rereadItems items = none
  | [], h => by cases h
  | _ :: _, h => rereadItems_cons_eq_none <| (List.mem_append.1 h).imp
    (reread_eq_none hx) (rereadItems_eq_none hx)

theorem rereadMembers_eq_none {x : Float} (hx : rereadReal x = none) :
    ∀ {members : List (String × Json)}, x ∈ realsOfMembers members → rereadMembers members = none
  | [], h => by cases h
  | _ :: _, h => rereadMembers_cons_eq_none <| (List.mem_append.1 h).imp
    (reread_eq_none hx) (rereadMembers_eq_none hx)

end

end Lost

end PitFleet.Json
