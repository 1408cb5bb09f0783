import PitFleet.Proofs.Json.Filling
import PitFleet.Proofs.Json.Finite

/-!
# What a draft is read as

`Reads` gives the rules by which a draft is read along a shape. The members of an object may stand
in any order (`Reads.perm`): a field is given by the one member of its name, or it is left out, and
members that no field is named for count for nothing. `conform` gives what these rules give and
refuses all else (`Draft.conform_eq_ok_iff`).
-/

namespace PitFleet.Json

mutual

inductive Reads : Strictness → Shape → Draft → Json → Prop
  | real {strictness : Strictness} (n : Number) :
    Reads strictness .real (.number (some n)) (.real n.toReal)
  | integer {strictness : Strictness} {least greatest n : ℤ} (h : least ≤ n ∧ n ≤ greatest) :
    Reads strictness (.integer least greatest) (.number (some (.integer n))) (.integer n)
  | flag {strictness : Strictness} (b : Bool) : Reads strictness .flag (.bool b) (.bool b)
  | text {strictness : Strictness} (s : String) :
    Reads strictness .text (.string (some s)) (.string s)
  | choice {strictness : Strictness} {names : List String} {name : String} (h : name ∈ names) :
    Reads strictness (.choice names) (.string (some name)) (.string name)
  /-- A name may also be the only key of an object, with nothing under it. -/
  | key {strictness : Strictness} {names : List String} {name : String} (h : name ∈ names) :
    Reads strictness (.choice names) (.object (.cons (some name) .null .closed)) (.string name)
  | list {strictness : Strictness} {item : Shape} {items : Items} {values : List Json}
    (h : ReadsAll strictness item items values) :
    Reads strictness (.list item) (.array items) (.array values)
  | record {strictness : Strictness} {fields : List Field} {members : Members}
    {given : List (String × Draft)} {filled : List (String × Json)}
    (hgiven : members.toList? = some given) (hnames : ByName strictness fields given)
    (h : ReadsNamed strictness given fields filled) :
    Reads strictness (.record fields) (.object members) (.object filled)
  /-- The fields in their order, without names. -/
  | row {strictness : Strictness} {fields : List Field} {items : Items}
    {filled : List (String × Json)} (h : ReadsRow strictness fields items filled) :
    Reads strictness (.record fields) (.array items) (.object filled)
  | tagged {strictness : Strictness} {key name : String} {variants : List (String × List Field)}
    {fields : List Field} {members : Members} {given : List (String × Draft)}
    {filled : List (String × Json)} (hgiven : members.toList? = some given)
    (htag : Tells strictness key variants given (name, fields))
    (hnames : ByName .buffered fields given) (h : ReadsNamed .buffered given fields filled) :
    Reads strictness (.tagged key variants) (.object members)
      (.object ((key, .string name) :: filled))
  /-- The tag and then the fields in their order. -/
  | taggedRow {strictness : Strictness} {key name : String}
    {variants : List (String × List Field)} {fields : List Field} {tag : Draft} {rest : Items}
    {filled : List (String × Json)} (htag : readTag strictness variants tag = .ok (name, fields))
    (hrest : strictness = .streamed → rest.check innerLevels = .ok ())
    (h : ReadsRow .buffered fields rest filled) :
    Reads strictness (.tagged key variants) (.array (.cons tag rest))
      (.object ((key, .string name) :: filled))

inductive ReadsAll : Strictness → Shape → Items → List Json → Prop
  | closed {strictness : Strictness} {shape : Shape} : ReadsAll strictness shape .closed []
  | cons {strictness : Strictness} {shape : Shape} {item : Draft} {rest : Items} {v : Json}
    {values : List Json} (hv : Reads strictness shape item v)
    (h : ReadsAll strictness shape rest values) :
    ReadsAll strictness shape (.cons item rest) (v :: values)

/-- What a field makes of the draft that is given for it. -/
inductive ReadsField : Strictness → Field → Draft → Json → Prop
  | value {strictness : Strictness} {f : Field} {d : Draft} {v : Json}
    (hgiven : f.leavesOut d = false) (h : Reads strictness f.shape d v) :
    ReadsField strictness f d v
  | nothing {strictness : Strictness} {f : Field} {d : Draft} (hout : f.leavesOut d = true) :
    ReadsField strictness f d .null

/-- What the fields are among the members of an object. -/
inductive ReadsNamed :
    Strictness → List (String × Draft) → List Field → List (String × Json) → Prop
  | nil {strictness : Strictness} {given : List (String × Draft)} :
    ReadsNamed strictness given [] []
  | given {strictness : Strictness} {given : List (String × Draft)} {f : Field} {d : Draft}
    {v : Json} {fields : List Field} {filled : List (String × Json)} (hmem : (f.name, d) ∈ given)
    (hv : ReadsField strictness f d v) (h : ReadsNamed strictness given fields filled) :
    ReadsNamed strictness given (f :: fields) ((f.name, v) :: filled)
  | missing {strictness : Strictness} {given : List (String × Draft)} {f : Field} {v : Json}
    {fields : List Field} {filled : List (String × Json)} (hmem : f.name ∉ given.map Prod.fst)
    (hv : f.missing = .ok v) (h : ReadsNamed strictness given fields filled) :
    ReadsNamed strictness given (f :: fields) ((f.name, v) :: filled)

/-- What the fields are when the items stand for them in order. -/
inductive ReadsRow : Strictness → List Field → Items → List (String × Json) → Prop
  | closed {strictness : Strictness} {fields : List Field} {filled : List (String × Json)}
    (h : Field.complete [] fields = .ok filled) : ReadsRow strictness fields .closed filled
  | given {strictness : Strictness} {f : Field} {item : Draft} {v : Json} {fields : List Field}
    {rest : Items} {filled : List (String × Json)} (hv : ReadsField strictness f item v)
    (h : ReadsRow strictness fields rest filled) :
    ReadsRow strictness (f :: fields) (.cons item rest) ((f.name, v) :: filled)
  | surplus {item : Draft} {rest : Items} : ReadsRow .lenient [] (.cons item rest) []

end

section Order

variable {strictness : Strictness} {shape : Shape} {fields : List Field}
  {members members' : Members} {given given' : List (String × Draft)}
  {filled : List (String × Json)} {v : Json}

theorem ReadsNamed.perm (hperm : given.Perm given')
    (h : ReadsNamed strictness given fields filled) : ReadsNamed strictness given' fields filled := by
  induction fields generalizing filled with
  | nil =>
    cases h
    exact .nil
  | cons f fields ih =>
    cases h with
    | given hmem hv h => exact .given (hperm.mem_iff.1 hmem) hv (ih h)
    | missing hmem hv h =>
      exact .missing (fun hc => hmem ((hperm.map Prod.fst).mem_iff.2 hc)) hv (ih h)

/-- The members of an object may stand in any order. -/
theorem Reads.perm (hgiven : members.toList? = some given)
    (hgiven' : members'.toList? = some given') (hperm : given.Perm given')
    (h : Reads strictness shape (.object members) v) :
    Reads strictness shape (.object members') v := by
  cases h with
  | record hg hnames h =>
    obtain rfl := Option.some.inj (hg.symm.trans hgiven)
    exact .record hgiven' (hnames.perm hperm) (h.perm hperm)
  | tagged hg htag hnames h =>
    obtain rfl := Option.some.inj (hg.symm.trans hgiven)
    exact .tagged hgiven' (htag.perm hperm) (hnames.perm hperm) (h.perm hperm)
  | key h =>
    obtain rfl := Option.some.inj hgiven
    rw [← hperm.singleton_eq] at hgiven'
    obtain ⟨rest, rfl, hrest⟩ := Members.toList?_eq_cons_iff.1 hgiven'
    rw [Members.toList?_eq_nil_iff.1 hrest]
    exact .key h

end Order

section Conform

/-- No record of a shape has two fields of one name. -/
inductive Shape.Distinct : Shape → Prop
  | real : Distinct .real
  | integer (least greatest : ℤ) : Distinct (.integer least greatest)
  | flag : Distinct .flag
  | text : Distinct .text
  | choice (names : List String) : Distinct (.choice names)
  | list {item : Shape} (h : Distinct item) : Distinct (.list item)
  | record {fields : List Field} (hnames : (fields.map Field.name).Nodup)
    (h : ∀ f ∈ fields, Distinct f.shape) : Distinct (.record fields)
  | tagged {key : String} {variants : List (String × List Field)}
    (hnames : ∀ variant ∈ variants, (variant.2.map Field.name).Nodup)
    (h : ∀ variant ∈ variants, ∀ f ∈ variant.2, Distinct f.shape) :
    Distinct (.tagged key variants)

theorem distinct_cons {f : Field} {fields : List Field} (hf : f.shape.Distinct)
    (h : ∀ g ∈ fields, g.shape.Distinct) : ∀ g ∈ f :: fields, g.shape.Distinct :=
  List.forall_mem_cons.2 ⟨hf, h⟩

theorem fill_row {strictness : Strictness} {f : Field} {fields : List Field} {item : Draft}
    {rest : Items} : (Items.cons item rest).fill strictness (f :: fields)
      = (f.take strictness item >>= fun v => rest.fill strictness fields >>= fun filled =>
          return (f.name, v) :: filled) := by
  rw [Items.fill, Field.take]
  split <;> rfl

section Complete

variable {strictness : Strictness} {given : List (String × Draft)} {fields : List Field}
  {filled : List (String × Json)}

theorem ReadsNamed.of_comes
    (hgiven : ∀ m ∈ given, ∀ f ∈ fields, ∀ v, f.take strictness m.2 = .ok v →
      ReadsField strictness f m.2 v)
    (hnames : filled.map Prod.fst = fields.map Field.name)
    (hvalues : ∀ p ∈ fields.zip filled, p.1.Comes strictness [] given p.2.2) :
    ReadsNamed strictness given fields filled := by
  induction fields generalizing filled with
  | nil =>
    rw [List.map_eq_nil_iff.1 hnames]
    exact .nil
  | cons f fields ih =>
    cases filled with
    | nil => cases hnames
    | cons m filled =>
      obtain ⟨name, v⟩ := m
      obtain ⟨hname, hothers⟩ := List.cons.inj hnames
      obtain rfl : name = f.name := hname
      rw [List.zip_cons_cons, List.forall_mem_cons] at hvalues
      have hrest := ih (fun m hm g hg => hgiven m hm g (.tail _ hg)) hothers hvalues.2
      rcases hvalues.1 with ⟨d, hd, hv⟩ | ⟨hout, hv⟩
      · exact .given hd (hgiven _ hd f List.mem_cons_self v hv) hrest
      · exact .missing hout hv hrest

theorem ReadsField.of_take {f : Field} {d : Draft} {v : Json}
    (hreads : ∀ v, d.conform strictness f.shape = .ok v → Reads strictness f.shape d v)
    (h : f.take strictness d = .ok v) : ReadsField strictness f d v := by
  unfold Field.take at h
  split at h
  case isTrue hout =>
    obtain rfl := Except.ok.inj h
    exact .nothing hout
  case isFalse hgiven => exact .value (Bool.eq_false_iff.2 hgiven) (hreads v h)

end Complete

mutual

/-- Whatever a draft is read as, the rules allow. -/
theorem Draft.reads_of_conform {strictness : Strictness} : ∀ {d : Draft} {shape : Shape} {v : Json},
    shape.Distinct → d.conform strictness shape = .ok v → Reads strictness shape d v
  | .null, shape, v, _, h => by
    unfold Draft.conform at h
    split at h <;> cases h
  | .bool b, shape, v, _, h => by
    unfold Draft.conform at h
    split at h <;> cases h
    exact .flag b
  | .number n, shape, v, _, h => by
    unfold Draft.conform at h
    split at h
    · obtain rfl := Except.ok.inj h
      exact .real _
    · split at h <;> cases h
      exact .integer ‹_›
    all_goals cases h
  | .string s, shape, v, _, h => by
    unfold Draft.conform at h
    split at h
    · cases h
    · cases h
      exact .text _
    · split at h <;> cases h
      exact .choice ‹_›
    · cases h
  | .array items, shape, v, hs, h => by
    unfold Draft.conform at h
    cases hs with
    | list hitem =>
      obtain ⟨values, hvalues, h⟩ := bind_eq_ok_iff.1 h
      obtain rfl := Except.ok.inj h
      exact .list (Items.reads_of_conform hitem hvalues)
    | record hnames hfields =>
      obtain ⟨filled, hfilled, h⟩ := bind_eq_ok_iff.1 h
      obtain rfl := Except.ok.inj h
      exact .row (Items.reads_of_fill hfields hfilled)
    | tagged hnames hvariants =>
      cases items with
      | closed => cases h
      | broken => cases h
      | cons tag rest =>
        obtain ⟨⟨name, fields⟩, htag, h⟩ := bind_eq_ok_iff.1 h
        obtain ⟨hrest, h⟩ := guarded_eq_ok_iff.1 h
        obtain ⟨filled, hfilled, h⟩ := bind_eq_ok_iff.1 h
        obtain rfl := Except.ok.inj h
        exact .taggedRow htag hrest
          (Items.reads_of_fill (hvariants _ (mem_of_readTag htag)) hfilled)
    | _ => cases h
  | .object members, shape, v, hs, h => by
    unfold Draft.conform at h
    cases hs with
    | record hnames hfields =>
      obtain ⟨filled, hfilled, h⟩ := bind_eq_ok_iff.1 h
      obtain rfl := Except.ok.inj h
      obtain ⟨given, hgiven, hfills⟩ := (Members.fill_eq_ok_iff hnames _).1 hfilled
      exact .record hgiven hfills.byName (.of_comes
        (fun m hm f hf v hv => Members.reads_of_take hgiven m hm (hfields f hf) hv)
        hfills.names hfills.values)
    | tagged hnames hvariants =>
      obtain ⟨⟨name, fields⟩, htag, h⟩ := bind_eq_ok_iff.1 h
      obtain ⟨filled, hfilled, h⟩ := bind_eq_ok_iff.1 h
      obtain rfl := Except.ok.inj h
      obtain ⟨given, hgiven, hfinds⟩ := (findTag_eq_ok_iff _ _).1 htag
      have htells := tells_iff_finds.2 hfinds
      obtain ⟨d, -, hd⟩ := htells.tag
      have hvariant := mem_of_readTag hd
      obtain ⟨given', hgiven', hfills⟩ := (Members.fill_eq_ok_iff (hnames _ hvariant) _).1 hfilled
      -- The tag was found among the members that the fields are then taken from.
      obtain rfl : given' = given := Option.some.inj (hgiven'.symm.trans hgiven)
      exact .tagged hgiven htells hfills.byName (.of_comes
        (fun m hm f hf v hv => Members.reads_of_take hgiven m hm (hvariants _ hvariant f hf) hv)
        hfills.names hfills.values)
    | choice =>
      obtain ⟨name, hname, rfl, rfl⟩ := choiceMember_eq_ok_iff.1 h
      exact .key hname
    | _ => cases h
  | .broken b, shape, v, _, h => by
    unfold Draft.conform at h
    split at h <;> cases h

theorem Items.reads_of_conform {strictness : Strictness} : ∀ {items : Items} {shape : Shape}
    {values : List Json}, shape.Distinct → items.conform strictness shape = .ok values →
    ReadsAll strictness shape items values
  | .closed, shape, values, _, h => by
    obtain rfl := Except.ok.inj h
    exact .closed
  | .broken b, shape, values, _, h => by cases h
  | .cons item rest, shape, values, hs, h => by
    obtain ⟨v, hv, h⟩ := bind_eq_ok_iff.1 h
    obtain ⟨others, hothers, h⟩ := bind_eq_ok_iff.1 h
    obtain rfl := Except.ok.inj h
    exact .cons (Draft.reads_of_conform hs hv) (Items.reads_of_conform hs hothers)

theorem Items.reads_of_fill {strictness : Strictness} : ∀ {items : Items} {fields : List Field}
    {filled : List (String × Json)}, (∀ f ∈ fields, f.shape.Distinct) →
    items.fill strictness fields = .ok filled → ReadsRow strictness fields items filled
  | .closed, fields, filled, _, h => .closed h
  | .broken b, fields, filled, _, h => by cases h
  | .cons item rest, [], filled, _, h => by
    cases strictness with
    | lenient =>
      obtain rfl := Except.ok.inj h
      exact .surplus
    | _ => cases h
  | .cons item rest, f :: fields, filled, hs, h => by
    rw [fill_row] at h
    obtain ⟨v, hv, h⟩ := bind_eq_ok_iff.1 h
    obtain ⟨others, hothers, h⟩ := bind_eq_ok_iff.1 h
    obtain rfl := Except.ok.inj h
    rw [List.forall_mem_cons] at hs
    exact .given (.of_take (fun _ => Draft.reads_of_conform hs.1) hv)
      (Items.reads_of_fill hs.2 hothers)

theorem Members.reads_of_take {strictness : Strictness} : ∀ {members : Members}
    {given : List (String × Draft)}, members.toList? = some given →
    ∀ m ∈ given, ∀ {f : Field} {v : Json}, f.shape.Distinct → f.take strictness m.2 = .ok v →
      ReadsField strictness f m.2 v
  | .closed, given, hgiven, m, hm, f, v, hs, h => by
    obtain rfl := Option.some.inj hgiven
    cases hm
  | .broken b, given, hgiven, _, _, _, _, _, _ => by cases hgiven
  | .cons none value rest, given, hgiven, _, _, _, _, _, _ => by cases hgiven
  | .cons (some name) value rest, given, hgiven, m, hm, f, v, hs, h => by
    obtain ⟨others, hothers, heq⟩ := Option.bind_eq_some_iff.1 hgiven
    obtain rfl := Option.some.inj heq
    rcases List.mem_cons.1 hm with rfl | hm
    · exact .of_take (fun _ => Draft.reads_of_conform hs) h
    · exact Members.reads_of_take hothers m hm hs h

end

mutual

/-- What the rules allow, a draft is read as. -/
theorem Reads.conform : ∀ {strictness : Strictness} {shape : Shape} {d : Draft} {v : Json},
    Reads strictness shape d v → shape.Distinct → d.conform strictness shape = .ok v
  | _, _, _, _, .real n, _ => rfl
  | _, _, _, _, .integer h, _ => if_pos h
  | _, _, _, _, .flag b, _ => rfl
  | _, _, _, _, .text s, _ => rfl
  | _, _, _, _, .choice h, _ => if_pos h
  | _, _, _, _, .key h, _ => choiceMember_eq_ok_iff.2 ⟨_, h, rfl, rfl⟩
  | _, _, _, _, .list h, .list hitem => by
    rw [Draft.conform, h.conform hitem]
    rfl
  | _, _, _, _, .record hgiven hnames h, .record hdistinct hfields => by
    obtain ⟨hfilled, hvalues⟩ := h.comes hfields
    rw [Draft.conform, (Members.fill_eq_ok_iff hdistinct _).2
      ⟨_, hgiven, hnames, fun _ _ _ => List.not_mem_nil, hfilled, hvalues⟩]
    rfl
  | _, _, _, _, .row h, .record _ hfields => by
    rw [Draft.conform, h.fill hfields]
    rfl
  | _, _, _, _, .tagged hgiven htag hnames h, .tagged hdistinct hvariants => by
    obtain ⟨d, -, hd⟩ := htag.tag
    have hvariant := mem_of_readTag hd
    obtain ⟨hfilled, hvalues⟩ := h.comes (hvariants _ hvariant)
    have hfind := (findTag_eq_ok_iff _ _).2 ⟨_, hgiven, tells_iff_finds.1 htag⟩
    have hfill := (Members.fill_eq_ok_iff (hdistinct _ hvariant) _).2
      ⟨_, hgiven, hnames, fun _ _ _ => List.not_mem_nil, hfilled, hvalues⟩
    exact bind_eq_ok_iff.2 ⟨_, hfind, bind_eq_ok_iff.2 ⟨_, hfill, rfl⟩⟩
  | _, _, _, _, .taggedRow htag hrest h, .tagged _ hvariants => by
    have hfill := h.fill (hvariants _ (mem_of_readTag htag))
    exact bind_eq_ok_iff.2 ⟨_, htag,
      guarded_eq_ok_iff.2 ⟨hrest, bind_eq_ok_iff.2 ⟨_, hfill, rfl⟩⟩⟩

theorem ReadsAll.conform : ∀ {strictness : Strictness} {shape : Shape} {items : Items}
    {values : List Json}, ReadsAll strictness shape items values → shape.Distinct →
    items.conform strictness shape = .ok values
  | _, _, _, _, .closed, _ => rfl
  | _, _, _, _, .cons hv h, hs => by
    rw [Items.conform, hv.conform hs, h.conform hs]
    rfl

theorem ReadsField.take : ∀ {strictness : Strictness} {f : Field} {d : Draft} {v : Json},
    ReadsField strictness f d v → f.shape.Distinct → f.take strictness d = .ok v
  | _, _, _, _, .value hgiven h, hs => by
    rw [Field.take, hgiven, if_neg Bool.false_ne_true, h.conform hs]
  | _, _, _, _, .nothing hout, _ => if_pos hout

theorem ReadsNamed.comes : ∀ {strictness : Strictness} {given : List (String × Draft)}
    {fields : List Field} {filled : List (String × Json)},
    ReadsNamed strictness given fields filled → (∀ f ∈ fields, f.shape.Distinct) →
    filled.map Prod.fst = fields.map Field.name
      ∧ ∀ p ∈ fields.zip filled, p.1.Comes strictness [] given p.2.2
  | _, _, _, _, .nil, _ => ⟨rfl, nofun⟩
  | _, _, _, _, .given hmem hv h, hs => by
    rw [List.forall_mem_cons] at hs
    obtain ⟨hnames, hvalues⟩ := h.comes hs.2
    exact ⟨congrArg _ hnames, List.forall_mem_cons.2 ⟨.inl ⟨_, hmem, hv.take hs.1⟩, hvalues⟩⟩
  | _, _, _, _, .missing hmem hv h, hs => by
    rw [List.forall_mem_cons] at hs
    obtain ⟨hnames, hvalues⟩ := h.comes hs.2
    exact ⟨congrArg _ hnames, List.forall_mem_cons.2 ⟨.inr ⟨hmem, hv⟩, hvalues⟩⟩

theorem ReadsRow.fill : ∀ {strictness : Strictness} {fields : List Field} {items : Items}
    {filled : List (String × Json)}, ReadsRow strictness fields items filled →
    (∀ f ∈ fields, f.shape.Distinct) → items.fill strictness fields = .ok filled
  | _, _, _, _, .closed h, _ => h
  | _, _, _, _, .given hv h, hs => by
    rw [List.forall_mem_cons] at hs
    rw [fill_row, hv.take hs.1, h.fill hs.2]
    rfl
  | _, _, _, _, .surplus, _ => rfl

end

theorem Draft.conform_eq_ok_iff {strictness : Strictness} {shape : Shape} {d : Draft} {v : Json}
    (hs : shape.Distinct) : d.conform strictness shape = .ok v ↔ Reads strictness shape d v :=
  ⟨Draft.reads_of_conform hs, fun h => h.conform hs⟩

end Conform

end PitFleet.Json
