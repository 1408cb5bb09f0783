import PitFleet.Proofs.Json.Lawful
import PitFleet.Proofs.Json.Reading
import PitFleet.Toml.Document

/-!
# Documents that are read back from TOML

A text may give the entries of a table in another order than the table that it was written for, so
that trees are compared up to that order (`Toml.agrees`). A value whose whole numbers have 64 bits
with a sign has a tree, and any tree that agrees with it is read as the value
(`TomlDocument.ofToml?_of_agrees`): what is null stays out of the tree and is what its field comes
to when it is missing.
-/

namespace PitFleet

open Json Document

namespace Toml

mutual

/-- Two trees are the same, whatever the order of the entries of a table. -/
def agrees : Toml → Toml → Bool
  | .string s, .string s' => s = s'
  | .integer n, .integer n' => n = n'
  | .real x, .real x' => x = x'
  | .bool b, .bool b' => b = b'
  | .dateTime, .dateTime => true
  | .array items, .array items' => agreesItems items items'
  | .table entries, .table entries' =>
    entries.length = entries'.length && agreesEntries entries entries'
  | _, _ => false

def agreesItems : List Toml → List Toml → Bool
  | [], [] => true
  | item :: items, item' :: items' => agrees item item' && agreesItems items items'
  | _, _ => false

/-- Every entry has one of its key among the others. -/
def agreesEntries : List (String × Toml) → List (String × Toml) → Bool
  | [], _ => true
  | (key, v) :: entries, entries' =>
    (match entries'.lookup key with
      | some v' => agrees v v'
      | none => false) && agreesEntries entries entries'

end

/-- The text of a table is read as a table that agrees with it. -/
def Survives (entries : List (String × Toml)) : Prop :=
  ∃ entries', read? (render entries) = some entries'
    ∧ agrees (.table entries) (.table entries') = true

theorem survives_iff {entries : List (String × Toml)} : Survives entries
    ↔ (read? (render entries)).any (agrees (.table entries) <| .table ·) = true := by
  rw [Option.any_eq_true]
  rfl

section Agreement

variable {t : Toml} {s : String} {n : ℤ} {x : Float} {b : Bool} {items : List Toml}
  {entries entries' : List (String × Toml)}

theorem agrees_string_iff : agrees (.string s) t = true ↔ t = .string s := by
  cases t <;> simp [agrees, eq_comm]

theorem agrees_integer_iff : agrees (.integer n) t = true ↔ t = .integer n := by
  cases t <;> simp [agrees, eq_comm]

theorem agrees_real_iff : agrees (.real x) t = true ↔ t = .real x := by
  cases t <;> simp [agrees, eq_comm]

theorem agrees_bool_iff : agrees (.bool b) t = true ↔ t = .bool b := by
  cases t <;> simp [agrees, eq_comm]

theorem agrees_array_iff : agrees (.array items) t = true
    ↔ ∃ items', t = .array items' ∧ agreesItems items items' = true := by
  cases t <;> simp [agrees]

theorem agreesEntries_iff : agreesEntries entries entries' = true
    ↔ ∀ e ∈ entries, ∃ v, entries'.lookup e.1 = some v ∧ agrees e.2 v = true := by
  induction entries with
  | nil => simp [agreesEntries]
  | cons e entries ih =>
    obtain ⟨key, v⟩ := e
    rw [agreesEntries, Bool.and_eq_true, ih, List.forall_mem_cons]
    cases entries'.lookup key <;> simp

theorem agrees_table_iff : agrees (.table entries) t = true
    ↔ ∃ entries', t = .table entries' ∧ entries.length = entries'.length
      ∧ ∀ e ∈ entries, ∃ v, entries'.lookup e.1 = some v ∧ agrees e.2 v = true := by
  cases t <;> simp [agrees, agreesEntries_iff]

theorem mem_of_lookup {key : String} {v : Toml} (h : entries.lookup key = some v) :
    (key, v) ∈ entries := by
  obtain ⟨before, after, rfl, -⟩ := List.lookup_eq_some_iff.1 h
  exact List.mem_append_right _ List.mem_cons_self

/-- Tables that agree have the same keys. -/
theorem keys_perm (hlength : entries.length = entries'.length)
    (hkeys : ∀ e ∈ entries, ∃ v, entries'.lookup e.1 = some v ∧ agrees e.2 v = true)
    (hnodup : (entries.map Prod.fst).Nodup) :
    (entries'.map Prod.fst).Perm (entries.map Prod.fst) := by
  have hsubset : entries.map Prod.fst ⊆ entries'.map Prod.fst := by
    intro key hkey
    obtain ⟨e, he, rfl⟩ := List.mem_map.1 hkey
    obtain ⟨v, hv, -⟩ := hkeys e he
    exact List.mem_map.2 ⟨_, mem_of_lookup hv, rfl⟩
  refine ((hnodup.subperm hsubset).perm_of_length_le ?_).symm
  rw [List.length_map, List.length_map, hlength]

end Agreement

section Trees

variable {v : Json} {key : String} {members : List (String × Json)}
  {entries : List (String × Toml)} {t : Toml}

theorem ne_null_of_ofJson? (h : Toml.ofJson? v = some t) : v ≠ .null := by
  rintro rfl
  cases h

theorem ofJson?_object : Toml.ofJson? (.object members) = .table <$> ofMembers? members := by
  rw [Toml.ofJson?]

/-- A member that is null is left out and any other is written as its tree. -/
theorem ofMembers?_cons_eq_some_iff : ofMembers? ((key, v) :: members) = some entries
    ↔ (v = .null ∧ ofMembers? members = some entries)
      ∨ ∃ t rest, Toml.ofJson? v = some t ∧ ofMembers? members = some rest
        ∧ (key, t) :: rest = entries := by
  by_cases hv : v = .null
  · subst hv
    simp [ofMembers?, Toml.ofJson?]
  · have hcons : ofMembers? ((key, v) :: members) = Toml.ofJson? v >>= fun t =>
        ofMembers? members >>= fun rest => some ((key, t) :: rest) := by
      cases v with
      | null => exact absurd rfl hv
      | _ => rfl
    simp [hcons, hv, Option.bind_eq_some_iff]

/-- Null is written as nothing and any other value as its tree. -/
def Writable (v : Json) : Prop :=
  v = .null ∨ ∃ t, Toml.ofJson? v = some t

theorem exists_ofMembers?_iff :
    (∃ entries, ofMembers? members = some entries) ↔ ∀ m ∈ members, Writable m.2 := by
  induction members with
  | nil => simp [ofMembers?]
  | cons m members ih =>
    obtain ⟨key, v⟩ := m
    rw [List.forall_mem_cons, ← ih]
    simp only [ofMembers?_cons_eq_some_iff, Writable, exists_or, exists_and_left]
    constructor
    · rintro (⟨hv, hentries⟩ | ⟨entries, t, ht, rest, hrest, -⟩)
      · exact ⟨.inl hv, hentries⟩
      · exact ⟨.inr ⟨t, ht⟩, rest, hrest⟩
    · rintro ⟨hv | ⟨t, ht⟩, rest, hrest⟩
      · exact .inl ⟨hv, rest, hrest⟩
      · exact .inr ⟨_, t, ht, rest, hrest, rfl⟩

theorem exists_ofJson?_object_iff :
    (∃ t, Toml.ofJson? (.object members) = some t) ↔ ∀ m ∈ members, Writable m.2 := by
  rw [← exists_ofMembers?_iff, ofJson?_object]
  cases ofMembers? members <;> simp

/-- The entries of an object are the trees of its members. -/
theorem mem_ofMembers?_iff (h : ofMembers? members = some entries) :
    (key, t) ∈ entries ↔ ∃ v, (key, v) ∈ members ∧ Toml.ofJson? v = some t := by
  induction members generalizing entries with
  | nil =>
    obtain rfl := Option.some.inj h
    simp
  | cons m members ih =>
    obtain ⟨name, v⟩ := m
    rcases ofMembers?_cons_eq_some_iff.1 h with ⟨rfl, h⟩ | ⟨t', rest, ht', hrest, rfl⟩
    · simp [ih h, Toml.ofJson?, or_and_right, exists_or]
    · simp only [List.mem_cons, ih hrest, Prod.mk.injEq, or_and_right, exists_or]
      refine or_congr_left ⟨?_, ?_⟩
      · rintro ⟨rfl, rfl⟩
        exact ⟨v, ⟨rfl, rfl⟩, ht'⟩
      · rintro ⟨v', ⟨rfl, rfl⟩, ht⟩
        exact ⟨rfl, Option.some.inj (ht.symm.trans ht')⟩

theorem keys_sublist (h : ofMembers? members = some entries) :
    (entries.map Prod.fst).Sublist (members.map Prod.fst) := by
  induction members generalizing entries with
  | nil =>
    obtain rfl := Option.some.inj h
    exact .slnil
  | cons m members ih =>
    obtain ⟨name, v⟩ := m
    rcases ofMembers?_cons_eq_some_iff.1 h with ⟨rfl, h⟩ | ⟨t', rest, ht', hrest, rfl⟩
    · exact .cons _ (ih h)
    · exact .cons_cons _ (ih hrest)

theorem leavesOut_draft (f : Field) (t : Toml) : f.leavesOut t.draft = false := by
  cases t <;> rfl

theorem toList?_draftEntries (entries : List (String × Toml)) :
    (draftEntries entries).toList? = some (entries.map fun e => (e.1, e.2.draft)) := by
  induction entries with
  | nil => rfl
  | cons e entries ih =>
    rw [draftEntries, Members.toList?, ih]
    rfl

end Trees

section Records

/-- Any tree that agrees with that of the value is read as the value, which is null only where the
field may be missing. -/
structure Keeps (f : Field) (v : Json) : Prop where
  missing : v = .null → f.missing = .ok .null
  reads : ∀ {t t' : Toml}, Toml.ofJson? v = some t → agrees t t' = true →
    Reads .lenient f.shape t'.draft v

/-- The members are those of the fields, in their order. -/
inductive Kept : List Field → List (String × Json) → Prop
  | nil : Kept [] []
  | cons {f : Field} {v : Json} {fields : List Field} {members : List (String × Json)}
    (hv : Keeps f v) (h : Kept fields members) : Kept (f :: fields) ((f.name, v) :: members)

variable {fields : List Field} {members : List (String × Json)} {t t' : Toml}

theorem Kept.names (h : Kept fields members) :
    members.map Prod.fst = fields.map Field.name := by
  induction h with
  | nil => rfl
  | cons hv h ih => rw [List.map_cons, List.map_cons, ih]

theorem Kept.readsNamed {given : List (String × Draft)} (h : Kept fields members)
    (hgiven : ∀ m ∈ members, m.2 ≠ .null → ∃ t t', Toml.ofJson? m.2 = some t
      ∧ agrees t t' = true ∧ (m.1, t'.draft) ∈ given)
    (hout : ∀ m ∈ members, m.2 = .null → m.1 ∉ given.map Prod.fst) :
    ReadsNamed .lenient given fields members := by
  induction h with
  | nil => exact .nil
  | @cons f v fields members hv h ih =>
    rw [List.forall_mem_cons] at hgiven hout
    have hrest := ih hgiven.2 hout.2
    by_cases hnull : v = .null
    · exact .missing (hout.1 hnull) (hnull ▸ hv.missing hnull) hrest
    · obtain ⟨t, t', ht, hagrees, hmem⟩ := hgiven.1 hnull
      exact .given hmem (.value (leavesOut_draft f t') (hv.reads ht hagrees)) hrest

/-- A record is read from the entries by their keys. -/
theorem Kept.reads (h : Kept fields members) (hnames : (fields.map Field.name).Nodup)
    (ht : Toml.ofJson? (.object members) = some t) (hagrees : agrees t t' = true) :
    Reads .lenient (.record fields) t'.draft (.object members) := by
  rw [ofJson?_object] at ht
  obtain ⟨entries, hentries, rfl⟩ := Option.map_eq_some_iff.1 ht
  obtain ⟨entries', rfl, hlength, hkeys⟩ := agrees_table_iff.1 hagrees
  rw [← h.names] at hnames
  have hnodup := hnames.sublist (keys_sublist hentries)
  have hperm := keys_perm hlength hkeys hnodup
  have hgiven : (entries'.map fun e => (e.1, e.2.draft)).map Prod.fst = entries'.map Prod.fst := by
    rw [List.map_map]
    rfl
  refine .record (toList?_draftEntries entries') ⟨?_, nofun⟩ (h.readsNamed ?_ ?_)
  · rw [hgiven]
    exact (hperm.nodup_iff.2 hnodup).filter _
  · rintro ⟨key, v⟩ hm hnull
    obtain ⟨t, ht⟩ := (exists_ofMembers?_iff.1 ⟨entries, hentries⟩ _ hm).resolve_left hnull
    obtain ⟨t', hlookup, htt'⟩ := hkeys _ ((mem_ofMembers?_iff hentries).2 ⟨v, hm, ht⟩)
    exact ⟨t, t', ht, htt', List.mem_map.2 ⟨_, mem_of_lookup hlookup, rfl⟩⟩
  · -- A member that is null has no entry, and no other member has its key.
    rintro ⟨key, v⟩ hm hnull hc
    rw [hgiven, hperm.mem_iff] at hc
    obtain ⟨⟨key', t⟩, he, hkey⟩ := List.mem_map.1 hc
    obtain ⟨v', hm', ht⟩ := (mem_ofMembers?_iff hentries).1 he
    have hsame := List.inj_on_of_nodup_map hnames hm' hm hkey
    exact ne_null_of_ofJson? ht ((congrArg Prod.snd hsame).trans hnull)

end Records

end Toml

open Toml

/-- A document whose trees are read as its values. -/
class TomlDocument (τ : Type) [Document τ] where
  distinct : (shape τ).Distinct
  /-- Its whole numbers have 64 bits with a sign. -/
  InRange : τ → Prop
  ne_null (x : τ) : toJson x ≠ .null
  ofJson?_toJson (x : τ) : Document.ofJson? (toJson x) = some x
  exists_ofJson?_iff (x : τ) : (∃ t, Toml.ofJson? (toJson x) = some t) ↔ InRange x
  reads {x : τ} {t t' : Toml} (h : Toml.ofJson? (toJson x) = some t)
    (hagrees : agrees t t' = true) : Reads .lenient (shape τ) t'.draft (toJson x)

namespace TomlDocument

instance : TomlDocument Float where
  distinct := .real
  InRange _ := True
  ne_null _ := nofun
  ofJson?_toJson := LawfulDocument.ofJson?_toJson
  exists_ofJson?_iff _ := ⟨fun _ => trivial, fun _ => ⟨_, rfl⟩⟩
  reads {x} _ _ h hagrees := by
    obtain rfl := Option.some.inj h
    rw [agrees_real_iff.1 hagrees]
    exact .real (.real x)

instance : TomlDocument Bool where
  distinct := .flag
  InRange _ := True
  ne_null _ := nofun
  ofJson?_toJson _ := rfl
  exists_ofJson?_iff _ := ⟨fun _ => trivial, fun _ => ⟨_, rfl⟩⟩
  reads {b} _ _ h hagrees := by
    obtain rfl := Option.some.inj h
    rw [agrees_bool_iff.1 hagrees]
    exact .flag b

instance : TomlDocument String where
  distinct := .text
  InRange _ := True
  ne_null _ := nofun
  ofJson?_toJson := LawfulDocument.ofJson?_toJson
  exists_ofJson?_iff _ := ⟨fun _ => trivial, fun _ => ⟨_, rfl⟩⟩
  reads {s} _ _ h hagrees := by
    obtain rfl := Option.some.inj h
    rw [agrees_string_iff.1 hagrees]
    exact .text s

theorem ofJson?_natural_iff {n : ℕ} {t : Toml} : Toml.ofJson? (.integer n) = some t
    ↔ (n : ℤ) ≤ Int64.maxValue.toInt ∧ t = .integer n := by
  simp [Toml.ofJson?, fits, eq_comm]

instance : TomlDocument UInt64 where
  distinct := .integer ..
  InRange n := n.toNat ≤ Int64.maxValue.toInt
  ne_null _ := nofun
  ofJson?_toJson _ := congrArg some UInt64.ofNat_toNat
  exists_ofJson?_iff n := by
    simp [toJson, ofJson?_natural_iff]
  reads {n} _ _ h hagrees := by
    obtain ⟨-, rfl⟩ := ofJson?_natural_iff.1 h
    rw [agrees_integer_iff.1 hagrees]
    have hlt := n.toNat_lt_size
    exact .integer ⟨by omega, by omega⟩

section Lists

variable {τ : Type} [Document τ] [TomlDocument τ]

theorem exists_ofItems?_iff (xs : List τ) :
    (∃ items, ofItems? (xs.map toJson) = some items) ↔ ∀ x ∈ xs, InRange x := by
  induction xs with
  | nil => simp [ofItems?]
  | cons x xs ih =>
    rw [List.forall_mem_cons, ← ih, ← exists_ofJson?_iff]
    simp [ofItems?, Option.bind_eq_some_iff]

theorem ofItems?_cons_eq_some_iff {v : Json} {vs : List Json} {items : List Toml} :
    ofItems? (v :: vs) = some items
      ↔ ∃ t rest, Toml.ofJson? v = some t ∧ ofItems? vs = some rest ∧ t :: rest = items := by
  simp [ofItems?, Option.bind_eq_some_iff]

theorem readsAll_items : ∀ {xs : List τ} {items items' : List Toml},
    ofItems? (xs.map toJson) = some items → agreesItems items items' = true →
    ReadsAll .lenient (shape τ) (draftItems items') (xs.map toJson)
  | [], items, items', h, hagrees => by
    obtain rfl := Option.some.inj h
    cases items' with
    | nil => exact .closed
    | cons item items' => cases hagrees
  | x :: xs, items, items', h, hagrees => by
    obtain ⟨t, rest, ht, hrest, rfl⟩ := ofItems?_cons_eq_some_iff.1 h
    cases items' with
    | nil => cases hagrees
    | cons item items' =>
      obtain ⟨hfirst, hothers⟩ := Bool.and_eq_true_iff.1 hagrees
      exact .cons (reads ht hfirst) (readsAll_items hrest hothers)

theorem ofJson?_array {vs : List Json} : Toml.ofJson? (.array vs) = .array <$> ofItems? vs := by
  rw [Toml.ofJson?]

instance : TomlDocument (List τ) where
  distinct := .list distinct
  InRange xs := ∀ x ∈ xs, InRange x
  ne_null _ := nofun
  ofJson?_toJson := LawfulDocument.mapM_ofJson? ofJson?_toJson
  exists_ofJson?_iff xs := by
    have harray : Toml.ofJson? (toJson xs) = .array <$> ofItems? (xs.map toJson) := ofJson?_array
    rw [← exists_ofItems?_iff, harray]
    cases ofItems? (xs.map toJson) <;> simp
  reads {xs} _ _ h hagrees := by
    obtain ⟨items, hitems, rfl⟩ := Option.map_eq_some_iff.1 (ofJson?_array.symm.trans h)
    obtain ⟨items', rfl, hagrees⟩ := agrees_array_iff.1 hagrees
    exact .list (readsAll_items hitems hagrees)

end Lists

section Fields

variable {τ : Type} [Document τ] [TomlDocument τ] (name : String)

theorem keeps_of_shape {f : Field} (hshape : f.shape = shape τ) (x : τ) : Keeps f (toJson x) where
  missing h := absurd h (ne_null x)
  reads h hagrees := hshape ▸ TomlDocument.reads h hagrees

theorem kept_field (x : τ) {fields : List Field} {members : List (String × Json)}
    (h : Kept fields members) : Kept (field τ name :: fields) ((name, toJson x) :: members) :=
  .cons (keeps_of_shape rfl x) h

theorem kept_fieldOr (value x : τ) {fields : List Field} {members : List (String × Json)}
    (h : Kept fields members) : Kept (fieldOr name value :: fields) ((name, toJson x) :: members) :=
  .cons (keeps_of_shape rfl x) h

theorem kept_optionalField (o : Option τ) {fields : List Field} {members : List (String × Json)}
    (h : Kept fields members) :
    Kept (optionalField τ name :: fields) ((name, toJson o) :: members) := by
  cases o with
  | none => exact .cons ⟨fun _ => rfl, nofun⟩ h
  | some x => exact .cons (keeps_of_shape rfl x) h

theorem writable_toJson (x : τ) : Writable (toJson x) ↔ InRange x := by
  rw [Writable, or_iff_right (ne_null x), exists_ofJson?_iff]

theorem writable_option (o : Option τ) : Writable (toJson o) ↔ ∀ x ∈ o, InRange x := by
  cases o with
  | none => exact ⟨fun _ => nofun, fun _ => .inl rfl⟩
  | some x =>
    have hx : Writable (toJson (some x)) ↔ InRange x := writable_toJson x
    simpa using hx

theorem ofJson?_option (o : Option τ) : Document.ofJson? (toJson o) = some o := by
  cases o with
  | none => rfl
  | some x =>
    have hgiven : ∀ v : Json, v ≠ .null →
        (Document.ofJson? v : Option (Option τ)) = some <$> Document.ofJson? v := by
      intro v hv
      cases v with
      | null => exact absurd rfl hv
      | _ => rfl
    refine (hgiven _ (ne_null x)).trans ?_
    rw [ofJson?_toJson]
    rfl

/-- One part of a value after another is read from its form. -/
theorem bind_of_eq_some {α β : Type} {a : Option α} {f : α → Option β} {x : α} {b : Option β}
    (ha : a = some x) (hf : f x = b) : (a >>= f) = b := by
  rw [ha]
  exact hf

end Fields

section Texts

variable {τ : Type} [Document τ] {x : τ} {entries entries' : List (String × Toml)} {text : String}

theorem ofJson?_of_toToml? (h : toToml? x = some entries) :
    Toml.ofJson? (toJson x) = some (.table entries) := by
  unfold toToml? at h
  split at h
  · rename_i members hmembers
    rw [hmembers, ofJson?_object, h]
    rfl
  · cases h

variable [TomlDocument τ]

theorem ofToml?_of_agrees (h : toToml? x = some entries)
    (hagrees : agrees (.table entries) (.table entries') = true) : ofToml? entries' = some x := by
  have hreads := reads (ofJson?_of_toToml? h) hagrees
  rw [ofToml?, (Draft.conform_eq_ok_iff distinct).2 hreads]
  exact ofJson?_toJson x

theorem exists_writeToml?_iff {members : List (String × Json)} (hx : toJson x = .object members) :
    (∃ text, writeToml? x = some text) ↔ InRange x := by
  rw [← exists_ofJson?_iff, writeToml?, toToml?, hx, ofJson?_object]
  dsimp only
  cases ofMembers? members <;> simp

/-- A value whose text survives is read back from it. -/
theorem readToml?_of_writeToml? (hread : ∀ entries, toToml? x = some entries → Survives entries)
    (h : writeToml? x = some text) : readToml? text = some x := by
  obtain ⟨entries, hentries, rfl⟩ := Option.map_eq_some_iff.1 h
  obtain ⟨entries', hread, hagrees⟩ := hread entries hentries
  rw [readToml?, hread]
  exact ofToml?_of_agrees hentries hagrees

end Texts

end TomlDocument

end PitFleet
