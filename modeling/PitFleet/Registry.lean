/-!
# Registries

Values by name. A name is entered once; entering it again replaces its value and keeps its place.
`get?_insert` says what is found after an entry, `keys_insert` which names there are.
-/

namespace PitFleet

structure Registry (β : Type) where
  entries : List (String × β)
  /-- No name is entered twice. -/
  nodup : (entries.map (·.1)).Nodup := by simp

namespace Registry

variable {β : Type}

def empty : Registry β where
  entries := []

instance : Inhabited (Registry β) := ⟨empty⟩

def keys (r : Registry β) : List String :=
  r.entries.map (·.1)

def find? (key : String) : List (String × β) → Option β
  | [] => none
  | (k, v) :: es => if k = key then some v else find? key es

def get? (r : Registry β) (key : String) : Option β :=
  find? key r.entries

def contains (r : Registry β) (key : String) : Bool :=
  (r.get? key).isSome

def size (r : Registry β) : Nat :=
  r.entries.length

def isEmpty (r : Registry β) : Bool :=
  r.entries.isEmpty

/-- The entries with the value of `key` replaced. -/
def replace (key : String) (value : β) : List (String × β) → List (String × β)
  | [] => []
  | (k, v) :: es => if k = key then (k, value) :: es else (k, v) :: replace key value es

theorem map_fst_replace (key : String) (value : β) :
    ∀ es : List (String × β), (replace key value es).map (·.1) = es.map (·.1)
  | [] => rfl
  | (k, v) :: es => by
    have ih := map_fst_replace key value es
    by_cases h : k = key <;> simp [replace, h, ih]

def insert (r : Registry β) (key : String) (value : β) : Registry β :=
  if h : key ∈ r.keys then
    ⟨replace key value r.entries, by rw [map_fst_replace]; exact r.nodup⟩
  else
    ⟨r.entries ++ [(key, value)], by
      rw [List.map_append, List.nodup_append]
      refine ⟨r.nodup, by simp, fun k hk k' hk' hkk => h ?_⟩
      have : k' = key := by simpa using hk'
      rwa [← this, ← hkk]⟩

def ofList (es : List (String × β)) : Registry β :=
  es.foldl (fun r e => r.insert e.1 e.2) empty

/-- Two registries agree when the same names have equal values, whatever the order. -/
instance [BEq β] : BEq (Registry β) where
  beq r s := r.size == s.size && r.entries.all fun (k, v) => s.get? k == some v

theorem keys_insert (r : Registry β) (key : String) (value : β) :
    (r.insert key value).keys = if key ∈ r.keys then r.keys else r.keys ++ [key] := by
  unfold insert
  split
  · exact map_fst_replace key value r.entries
  · simp [keys]

theorem find?_replace (key k : String) (value : β) :
    ∀ es : List (String × β), key ∈ es.map (·.1) →
      find? k (replace key value es) = if k = key then some value else find? k es
  | [], h => by simp at h
  | (k', v) :: es, h => by
    by_cases hk : k' = key
    · subst hk
      by_cases hkk : k = k'
      · simp [replace, find?, hkk]
      · simp [replace, find?, Ne.symm hkk, hkk]
    · have hm : key ∈ es.map (·.1) := by simpa [Ne.symm hk] using h
      by_cases hkk : k' = k
      · subst hkk; simp [replace, find?, hk]
      · simp [replace, find?, hk, hkk, find?_replace key k value es hm]

theorem find?_append_of_not_mem (key k : String) (value : β) :
    ∀ es : List (String × β), key ∉ es.map (·.1) →
      find? k (es ++ [(key, value)]) = if k = key then some value else find? k es
  | [], _ => by simp [find?, eq_comm]
  | (k', v) :: es, h => by
    have hne : key ≠ k' := fun hc => h (by simp [hc])
    have hm : key ∉ es.map (·.1) := fun hc => h (List.mem_cons_of_mem _ hc)
    by_cases hkk : k' = k
    · subst hkk; simp [find?, Ne.symm hne]
    · simp [find?, hkk, find?_append_of_not_mem key k value es hm]

theorem get?_insert (r : Registry β) (key k : String) (value : β) :
    (r.insert key value).get? k = if k = key then some value else r.get? k := by
  unfold insert get?
  split
  · exact find?_replace key k value r.entries ‹_›
  · exact find?_append_of_not_mem key k value r.entries ‹_›

theorem isSome_find?_iff (key : String) :
    ∀ es : List (String × β), (find? key es).isSome = true ↔ key ∈ es.map (·.1)
  | [] => by simp [find?]
  | (k, v) :: es => by
    by_cases h : k = key
    · simp [find?, h]
    · simp only [find?, h, if_false, isSome_find?_iff key es, List.map_cons, List.mem_cons,
        Ne.symm h, false_or]

theorem contains_iff (r : Registry β) (key : String) : r.contains key = true ↔ key ∈ r.keys :=
  isSome_find?_iff key r.entries

end Registry

end PitFleet
