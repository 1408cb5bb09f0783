import Mathlib.Data.List.Nodup
import PitFleet.Json.Document
import PitFleet.Proofs.Json.Rereading
import PitFleet.Proofs.Json.Scanning

/-!
# Values that have a shape

A value fits a shape if it is what `conform` gives in full: every field in order under its name and
every number within its bounds. Such a value is scanned back (`Fits.scansBack`), and its draft
conforms to the shape as the value with its doubles read anew, unless one of them is lost
(`Fits.conform`).
-/

namespace PitFleet.Json

mutual

/-- A value has a shape within so many levels of brackets, and its whole numbers have 64 bits. -/
inductive Fits : ℕ → Shape → Json → Prop
  | real {room : ℕ} (x : Float) : Fits room .real (.real x)
  | integer {room : ℕ} {least greatest n : ℤ} (h : least ≤ n ∧ n ≤ greatest)
    (hbits : Int64.minValue.toInt ≤ n ∧ n < UInt64.size) :
    Fits room (.integer least greatest) (.integer n)
  | flag {room : ℕ} (b : Bool) : Fits room .flag (.bool b)
  | text {room : ℕ} (s : String) : Fits room .text (.string s)
  | choice {room : ℕ} {names : List String} {name : String} (h : name ∈ names) :
    Fits room (.choice names) (.string name)
  | list {room : ℕ} {item : Shape} {items : List Json} (h : ∀ v ∈ items, Fits room item v) :
    Fits (room + 1) (.list item) (.array items)
  | record {room : ℕ} {fields : List Field} {members : List (String × Json)}
    (h : Filled room fields members) (hnames : (fields.map Field.name).Nodup) :
    Fits (room + 1) (.record fields) (.object members)
  | tagged {room : ℕ} {key name : String} {variants : List (String × List Field)}
    {fields : List Field} {members : List (String × Json)}
    (hvariant : namedVariant? variants name = some (name, fields)) (h : Filled room fields members)
    (hnames : (key :: fields.map Field.name).Nodup) :
    Fits (room + 1) (.tagged key variants) (.object ((key, .string name) :: members))

/-- The members are the fields in order, each with a value of its shape. Where null would say that
nothing is given, the value holds no double, which might be written so. -/
inductive Filled : ℕ → List Field → List (String × Json) → Prop
  | nil {room : ℕ} : Filled room [] []
  | cons {room : ℕ} {f : Field} {v : Json} {fields : List Field} {members : List (String × Json)}
    (hv : Fits room f.shape v) (hgiven : f.presence = .optional → v.reals = [])
    (h : Filled room fields members) : Filled room (f :: fields) ((f.name, v) :: members)
  | absent {room : ℕ} {f : Field} {fields : List Field} {members : List (String × Json)}
    (hoptional : f.presence = .optional) (h : Filled room fields members) :
    Filled room (f :: fields) ((f.name, .null) :: members)

end

section Scan

mutual

theorem Fits.scansBack : ∀ {room : ℕ} {shape : Shape} {v : Json}, Fits room shape v → ScansBack v
  | _, _, _, .real x => scansBack_real x
  | _, _, _, .integer _ hbits => scansBack_integer hbits
  | _, _, _, .flag b => scansBack_bool b
  | _, _, _, .text s => scansBack_string s
  | _, _, _, .choice _ => scansBack_string _
  | _, _, _, .list h => scansBack_array fun v hv => (h v hv).scansBack
  | _, _, _, .record h _ => scansBack_object h.scansBack
  | _, _, _, .tagged _ h _ =>
    scansBack_object (List.forall_mem_cons.2 ⟨scansBack_string _, h.scansBack⟩)

theorem Filled.scansBack : ∀ {room : ℕ} {fields : List Field} {members : List (String × Json)},
    Filled room fields members → ∀ m ∈ members, ScansBack m.2
  | _, _, _, .nil => nofun
  | _, _, _, .cons hv _ h => List.forall_mem_cons.2 ⟨hv.scansBack, h.scansBack⟩
  | _, _, _, .absent _ h => List.forall_mem_cons.2 ⟨scansBack_null, h.scansBack⟩

end

end Scan

section Check

theorem draftItems_check {level : ℕ} {items : List Json}
    (h : ∀ v ∈ items, v.draft.check level = .ok () ∨ v.reread = none) :
    (draftItems items).check level = .ok () ∨ rereadItems items = none := by
  induction items with
  | nil => exact .inl rfl
  | cons item items ih =>
    rw [List.forall_mem_cons] at h
    rcases h.1 with hitem | hitem
    · rw [draftItems, Items.check, hitem]
      exact (ih h.2).imp id fun hlost => rereadItems_cons_eq_none (.inr hlost)
    · exact .inr (rereadItems_cons_eq_none (.inl hitem))

mutual

/-- A value is read in any place with room for its brackets, unless one of its doubles is lost. -/
theorem Fits.check : ∀ {room level : ℕ} {shape : Shape} {v : Json}, Fits room shape v →
    room ≤ level → v.draft.check level = .ok () ∨ v.reread = none
  | _, _, _, _, .real x, _ => by
    rw [draft, reread, rereadReal]
    split_ifs
    · rcases textNumber x with _ | n
      · exact .inr rfl
      · exact .inl rfl
    · exact .inr rfl
  | _, _, _, _, .integer _ _, _ => .inl rfl
  | _, _, _, _, .flag _, _ => .inl rfl
  | _, _, _, _, .text _, _ => .inl rfl
  | _, _, _, _, .choice _, _ => .inl rfl
  | _, _ + 1, _, _, .list h, hlevel =>
    (draftItems_check fun v hv => (h v hv).check (Nat.le_of_succ_le_succ hlevel)).imp id
      reread_array_eq_none
  | _, _ + 1, _, _, .record h _, hlevel =>
    (h.check (Nat.le_of_succ_le_succ hlevel)).imp id reread_object_eq_none
  | _, _ + 1, _, _, .tagged _ h _, hlevel =>
    (h.check (Nat.le_of_succ_le_succ hlevel)).imp id fun hlost =>
      reread_object_eq_none (rereadMembers_cons_eq_none (.inr hlost))

theorem Filled.check : ∀ {room level : ℕ} {fields : List Field} {members : List (String × Json)},
    Filled room fields members → room ≤ level →
      (draftMembers members).check level = .ok () ∨ rereadMembers members = none
  | _, _, _, _, .nil, _ => .inl rfl
  | _, _, _, _, .cons hv _ h, hlevel => by
    rcases hv.check hlevel with hvalue | hvalue
    · rw [draftMembers, Members.check, hvalue]
      exact (h.check hlevel).imp id fun hlost => rereadMembers_cons_eq_none (.inr hlost)
    · exact .inr (rereadMembers_cons_eq_none (.inl hvalue))
  | _, _, _, _, .absent _ h, hlevel =>
    (h.check hlevel).imp id fun hlost => rereadMembers_cons_eq_none (.inr hlost)

end

end Check

section Fields

theorem lookup_of_mem {found : List (String × Json)} {m : String × Json}
    (hkeys : (found.map Prod.fst).Nodup) (hm : m ∈ found) : found.lookup m.1 = some m.2 := by
  obtain ⟨before, after, rfl⟩ := List.append_of_mem hm
  refine List.lookup_eq_some_iff.2 ⟨before, after, rfl, fun n hn => bne_iff_ne.2 fun heq => ?_⟩
  rw [List.map_append, List.nodup_append] at hkeys
  exact hkeys.2.2 n.1 (List.mem_map_of_mem hn) m.1 List.mem_cons_self heq.symm

theorem find?_name {fields : List Field} {f : Field} (hnames : (fields.map Field.name).Nodup)
    (hf : f ∈ fields) : fields.find? (·.name = f.name) = some f := by
  obtain ⟨before, after, rfl⟩ := List.append_of_mem hf
  rw [List.map_append, List.nodup_append] at hnames
  refine List.find?_eq_some_iff_append.2 ⟨decide_eq_true rfl, before, after, rfl, fun g hg => ?_⟩
  have hne := hnames.2.2 g.name (List.mem_map_of_mem hg) f.name List.mem_cons_self
  simp [hne]

theorem Field.complete_of_lookup {found kept : List (String × Json)} {fields : List Field}
    (hnames : kept.map Prod.fst = fields.map Field.name)
    (hkept : ∀ m ∈ kept, found.lookup m.1 = some m.2) : complete found fields = .ok kept := by
  induction fields generalizing kept with
  | nil =>
    rw [List.map_eq_nil_iff.1 hnames]
    rfl
  | cons f fields ih =>
    cases kept with
    | nil => cases hnames
    | cons m kept =>
      obtain ⟨hname, hnames⟩ := List.cons_eq_cons.1 hnames
      rw [List.forall_mem_cons] at hkept
      have hrest := ih hnames hkept.2
      rw [complete, ← hname, hkept.1, hrest]
      rfl

end Fields

section Conform

/-- The members behind a tag do not name another one. They are passed unless a double is lost. -/
theorem Filled.findTag (strictness : Strictness) {key : String}
    (variants : List (String × List Field)) (variant : String × List Field) :
    ∀ {room : ℕ} {fields : List Field} {members : List (String × Json)},
    Filled room fields members → room ≤ innerLevels → key ∉ fields.map Field.name →
    findTag strictness key variants (some variant) (draftMembers members) = .ok variant
      ∨ rereadMembers members = none
        ∧ ∃ cause, findTag strictness key variants (some variant) (draftMembers members)
          = .error cause
  | _, _, _, .nil, _, _ => .inl rfl
  | _, f :: _, _, @Filled.cons _ _ v _ members hv _ h, hroom, hkey => by
    rw [List.map_cons, List.mem_cons, not_or] at hkey
    rw [draftMembers, Json.findTag, if_neg (Ne.symm hkey.1)]
    have hrest := (h.findTag strictness variants variant hroom hkey.2).imp_right
      (And.imp_left (rereadMembers_eq_none_of_tail f.name v))
    split_ifs
    · rcases hcheck : v.draft.check innerLevels with cause | ⟨⟩
      · refine .inr ⟨rereadMembers_cons_eq_none (.inl ?_), cause, rfl⟩
        exact (hv.check hroom).resolve_left (by simp [hcheck])
      · exact hrest
    · exact hrest
  | _, f :: _, _, .absent _ h, hroom, hkey => by
    rw [List.map_cons, List.mem_cons, not_or] at hkey
    rw [draftMembers, Json.findTag, if_neg (Ne.symm hkey.1)]
    have hrest := (h.findTag strictness variants variant hroom hkey.2).imp_right
      (And.imp_left (rereadMembers_eq_none_of_tail f.name null))
    split_ifs <;> exact hrest

theorem toOption_bind {α β : Type} (x : Except Cause α) (f : α → Except Cause β) :
    (x >>= f).toOption = x.toOption.bind fun a => (f a).toOption := by
  cases x <;> rfl

theorem toOption_eq_some_iff {α : Type} {x : Except Cause α} {a : α} :
    x.toOption = some a ↔ x = .ok a := by
  cases x <;> simp [Except.toOption]

theorem toOption_eq_none_iff {α : Type} {x : Except Cause α} :
    x.toOption = none ↔ ∃ cause, x = .error cause := by
  cases x <;> simp [Except.toOption]

theorem toOption_map {α β : Type} (x : Except Cause α) (f : α → β) :
    (x >>= fun a => return f a).toOption = f <$> x.toOption := by
  cases x <;> rfl

theorem draftItems_conform {strictness : Strictness} {shape : Shape} {items : List Json}
    (h : ∀ v ∈ items, (v.draft.conform strictness shape).toOption = v.reread) :
    ((draftItems items).conform strictness shape).toOption = rereadItems items := by
  induction items with
  | nil => rfl
  | cons item items ih =>
    rw [List.forall_mem_cons] at h
    rw [draftItems, Items.conform, toOption_bind, h.1]
    simp only [toOption_bind, ih h.2]
    rfl

/-- A value without doubles is not written as null. -/
theorem Fits.draft_ne_null {room : ℕ} {shape : Shape} {v : Json} (h : Fits room shape v)
    (hreals : v.reals = []) : v.draft ≠ .null := by
  cases h with
  | real x => cases hreals
  | _ => nofun

theorem Fits.leavesOut {room : ℕ} {f : Field} {v : Json} (hv : Fits room f.shape v)
    (hgiven : f.presence = .optional → v.reals = []) : f.leavesOut v.draft = false := by
  unfold Field.leavesOut
  split
  · split
    · exact absurd ‹v.draft = .null› (hv.draft_ne_null (hgiven ‹f.presence = .optional›))
    · rfl
  · rfl

theorem leavesOut_null {f : Field} (hoptional : f.presence = .optional) :
    f.leavesOut .null = true := by
  rw [Field.leavesOut]
  simp only [hoptional]

/-- A member whose field was not met before is read into it. -/
theorem fill_cons (strictness : Strictness) {fields : List Field} {f : Field} (value : Draft)
    {found : List (String × Json)} (rest : Members) (hnames : (fields.map Field.name).Nodup)
    (hf : f ∈ fields) (hnew : f.name ∉ found.map Prod.fst) :
    (Members.cons (some f.name) value rest).fill strictness fields found
      = ((if f.leavesOut value then .ok .null else value.conform strictness f.shape) >>= fun v =>
          rest.fill strictness fields ((f.name, v) :: found)) := by
  have hlookup : found.lookup f.name = none := by
    refine List.lookup_eq_none_iff.2 fun m hm => bne_iff_ne.2 fun heq => ?_
    exact hnew (heq ▸ List.mem_map_of_mem hm)
  rw [Members.fill]
  simp only [find?_name hnames hf, hlookup]
  cases f.leavesOut value <;> rfl

/-- A field that comes next was not met before. -/
theorem notMem_kept {before fields : List Field} {f : Field} {kept : List (String × Json)}
    (hnames : ((before ++ f :: fields).map Field.name).Nodup)
    (hkept : kept.map Prod.fst = before.map Field.name) : f.name ∉ kept.reverse.map Prod.fst := by
  rw [List.map_reverse, List.mem_reverse, hkept]
  rw [List.map_append, List.nodup_append] at hnames
  exact fun hmem => hnames.2.2 f.name hmem f.name List.mem_cons_self rfl

/-- A member that no field is named for is passed over. -/
theorem fill_buffered_of_notMem {fields : List Field} {key : String} (value : Draft)
    {found : List (String × Json)} (rest : Members) (hkey : key ∉ fields.map Field.name) :
    (Members.cons (some key) value rest).fill .buffered fields found
      = rest.fill .buffered fields found := by
  have hfind : fields.find? (·.name = key) = none := by
    refine List.find?_eq_none.2 fun f hf heq => hkey ?_
    exact of_decide_eq_true heq ▸ List.mem_map_of_mem hf
  rw [Members.fill]
  simp only [hfind]
  rfl

mutual

/-- The text of a value of the shape is read as the value with its doubles read anew. -/
theorem Fits.conform (strictness : Strictness) : ∀ {room : ℕ} {shape : Shape} {v : Json},
    Fits room shape v → room ≤ innerLevels + 1 →
    (v.draft.conform strictness shape).toOption = v.reread
  | _, _, _, .real x, _ => by
    rw [draft, reread, rereadReal]
    split_ifs
    · cases textNumber x <;> rfl
    · rfl
  | _, _, _, .integer h _, _ => congrArg Except.toOption (if_pos h)
  | _, _, _, .flag _, _ => rfl
  | _, _, _, .text _, _ => rfl
  | _, _, _, .choice h, _ => congrArg Except.toOption (if_pos h)
  | _, _, _, .list h, hroom => by
    have hitems := draftItems_conform fun v hv => (h v hv).conform strictness (by omega)
    rw [draft, Draft.conform, toOption_map, hitems, reread]
  | _, _, _, .record h hnames, hroom => by
    have hfill := h.fill strictness [] [] hnames rfl (by omega)
    simp only [List.nil_append, List.reverse_nil, Option.map_id_fun', id] at hfill
    rw [draft, Draft.conform, toOption_map, hfill, reread]
  | _, _, _, @Fits.tagged _ key name variants fields members hvariant h hnames, hroom => by
    obtain ⟨hkey, hnames⟩ := List.nodup_cons.1 hnames
    have htag : readTag strictness variants (.string (some name)) = .ok (name, fields) := by
      simp only [readTag, hvariant]
    have hfound : findTag strictness key variants none
        (.cons (some key) (.string (some name)) (draftMembers members))
          = findTag strictness key variants (some (name, fields)) (draftMembers members) := by
      rw [Json.findTag, if_pos rfl, htag]
      rfl
    have hfill := h.fill .buffered [] [] hnames rfl (by omega)
    simp only [List.nil_append, List.reverse_nil, Option.map_id_fun', id] at hfill
    rw [draft, Draft.conform, draftMembers, draft, hfound, toOption_bind]
    rcases h.findTag strictness variants (name, fields) (by omega) hkey with
      hmembers | ⟨hlost, cause, hcause⟩
    · rw [hmembers]
      refine (toOption_map _ fun found => object ((key, .string name) :: found)).trans ?_
      rw [fill_buffered_of_notMem _ _ hkey, hfill, reread, rereadMembers]
      cases rereadMembers members <;> rfl
    · rw [hcause, reread_object_eq_none (rereadMembers_cons_eq_none (.inr hlost))]
      rfl

theorem Filled.fill (strictness : Strictness) : ∀ {room : ℕ} {fields : List Field}
    {members : List (String × Json)} (before : List Field) (kept : List (String × Json)),
    Filled room fields members → ((before ++ fields).map Field.name).Nodup →
    kept.map Prod.fst = before.map Field.name → room ≤ innerLevels + 1 →
    ((draftMembers members).fill strictness (before ++ fields) kept.reverse).toOption
      = (rereadMembers members).map (kept ++ ·)
  | _, _, _, before, kept, .nil, hnames, hkept, _ => by
    have hkeys : (kept.reverse.map Prod.fst).Nodup := by
      rw [List.append_nil] at hnames
      rwa [List.map_reverse, List.nodup_reverse, hkept]
    rw [draftMembers, Members.fill, List.append_nil, Field.complete_of_lookup hkept fun m hm =>
      lookup_of_mem hkeys (List.mem_reverse.2 hm)]
    exact congrArg some (List.append_nil kept).symm
  | _, f :: fields, _, before, kept, @Filled.cons _ _ v _ members hv hgiven h, hnames, hkept,
      hroom => by
    have hrest (w : Json) := h.fill strictness (before ++ [f]) (kept ++ [(f.name, w)])
      (by rwa [List.append_assoc]) (by rw [List.map_append, List.map_append, hkept]; rfl) hroom
    simp only [List.append_assoc, List.reverse_append] at hrest
    rw [draftMembers, fill_cons strictness _ _ hnames (List.mem_append_right _ List.mem_cons_self)
      (notMem_kept hnames hkept), hv.leavesOut hgiven, if_neg Bool.false_ne_true, toOption_bind,
      hv.conform strictness hroom, rereadMembers]
    rcases v.reread with _ | w
    · rfl
    · refine (hrest w).trans ?_
      cases rereadMembers members <;> simp
  | _, f :: fields, _, before, kept, @Filled.absent _ _ _ members hoptional h, hnames, hkept,
      hroom => by
    have hrest := h.fill strictness (before ++ [f]) (kept ++ [(f.name, .null)])
      (by rwa [List.append_assoc]) (by rw [List.map_append, List.map_append, hkept]; rfl) hroom
    rw [List.append_assoc, List.reverse_append] at hrest
    rw [draftMembers, draft,
      fill_cons strictness _ _ hnames (List.mem_append_right _ List.mem_cons_self)
        (notMem_kept hnames hkept), leavesOut_null hoptional, if_pos rfl]
    refine hrest.trans ?_
    rw [rereadMembers]
    cases rereadMembers members <;> simp [reread]

end

theorem Shape.read_render {shape : Shape} {v : Json} (h : Fits (innerLevels + 1) shape v)
    (style : Style) : (shape.read (v.render style)).toOption = v.reread := by
  have hscan := scan_write h.scansBack style
  have hconform := h.conform .streamed le_rfl
  rw [Shape.read, render, String.toList_ofList, hscan, ← hconform]
  dsimp only
  cases v.draft.conform .streamed shape <;> rfl

end Conform

end PitFleet.Json
