import PitFleet.Proofs.Json.Fitting

/-!
# How fields are found by their names

What is taken from the members of an object does not go by where they stand: each field that is
given is given once and the members of other names count for nothing (`Members.fill_eq_ok_iff`), and
so it is with the member that tells the variant of a record (`findTag_eq_ok_iff`).
-/

namespace PitFleet.Json

/-- The members of an object that is whole. -/
def Members.toList? : Members → Option (List (String × Draft))
  | .closed => some []
  | .broken _ => none
  | .cons key value rest => return (← key, value) :: (← rest.toList?)

namespace Members

variable {members : Members} {name : String} {d : Draft} {given : List (String × Draft)}

theorem toList?_eq_nil_iff : members.toList? = some [] ↔ members = .closed := by
  rcases members with _ | _ | ⟨_ | name, value, rest⟩
  case cons.some => cases hrest : rest.toList? <;> simp [toList?, hrest]
  all_goals simp [toList?]

theorem toList?_eq_cons_iff : members.toList? = some ((name, d) :: given)
    ↔ ∃ rest, members = .cons (some name) d rest ∧ rest.toList? = some given := by
  rcases members with _ | _ | ⟨_ | other, value, rest⟩
  case cons.some => cases hrest : rest.toList? <;> simp [toList?, hrest, and_assoc]
  all_goals simp [toList?]

end Members

/-- Members in which the fields are found by their names. -/
structure ByName (strictness : Strictness) (fields : List Field) (given : List (String × Draft)) :
    Prop where
  /-- No field is given twice. -/
  once : ((given.map Prod.fst).filter (· ∈ fields.map Field.name)).Nodup
  /-- What else there is can be skipped. -/
  skipped : strictness = .streamed →
    ∀ m ∈ given, m.1 ∉ fields.map Field.name → m.2.skip = .ok ()

/-- The one member under the key names the variant. -/
structure Tells (strictness : Strictness) (key : String) (variants : List (String × List Field))
    (given : List (String × Draft)) (variant : String × List Field) : Prop where
  tag : ∃ d, (key, d) ∈ given ∧ readTag strictness variants d = .ok variant
  once : (given.map Prod.fst).count key = 1
  checked : strictness = .streamed → ∀ m ∈ given, m.1 ≠ key → m.2.check innerLevels = .ok ()

section Order

variable {strictness : Strictness} {fields : List Field} {given given' : List (String × Draft)}
  {key : String} {variants : List (String × List Field)} {variant : String × List Field}

theorem ByName.perm (h : ByName strictness fields given) (hperm : given.Perm given') :
    ByName strictness fields given' where
  once := (((hperm.map Prod.fst).filter _).nodup_iff).1 h.once
  skipped hs m hm := h.skipped hs m (hperm.mem_iff.2 hm)

theorem Tells.perm (h : Tells strictness key variants given variant) (hperm : given.Perm given') :
    Tells strictness key variants given' variant where
  tag := h.tag.imp fun _ hd => ⟨hperm.mem_iff.1 hd.1, hd.2⟩
  once := ((hperm.map Prod.fst).count_eq key).symm.trans h.once
  checked hs m hm := h.checked hs m (hperm.mem_iff.2 hm)

end Order

section Complete

namespace Field

variable {found : List (String × Json)} {f : Field} {fields : List Field}

/-- The value of a field that no further member is given for. -/
def look (found : List (String × Json)) (f : Field) : Except Cause Json :=
  match found.lookup f.name with
  | some v => .ok v
  | none => f.missing

theorem complete_cons_eq_ok_iff {filled : List (String × Json)} :
    complete found (f :: fields) = .ok filled ↔ ∃ v rest, f.look found = .ok v
      ∧ complete found fields = .ok rest ∧ filled = (f.name, v) :: rest := by
  have hcons : complete found (f :: fields) = f.look found >>= fun v =>
      complete found fields >>= fun rest => return (f.name, v) :: rest := by
    rw [complete, look]
    cases found.lookup f.name <;> rfl
  simp only [hcons, bind_eq_ok_iff]
  constructor
  · rintro ⟨v, hv, rest, hrest, h⟩
    exact ⟨v, rest, hv, hrest, (Except.ok.inj h).symm⟩
  · rintro ⟨v, rest, hv, hrest, rfl⟩
    exact ⟨v, hv, rest, hrest, rfl⟩

theorem complete_eq_ok_iff : ∀ (fields : List Field) (filled : List (String × Json)),
    complete found fields = .ok filled ↔ filled.map Prod.fst = fields.map Field.name
      ∧ ∀ p ∈ fields.zip filled, p.1.look found = .ok p.2.2
  | [], filled => by
    cases filled <;> simp [complete]
  | f :: fields, [] => by
    simp [complete_cons_eq_ok_iff]
  | f :: fields, (name, v) :: filled => by
    have ih := complete_eq_ok_iff fields filled
    simp only [List.map_cons, List.cons.injEq, List.zip_cons_cons, List.forall_mem_cons]
    rw [complete_cons_eq_ok_iff]
    constructor
    · rintro ⟨v', rest, hv, hrest, heq⟩
      obtain ⟨⟨rfl, rfl⟩, rfl⟩ := List.cons.inj heq
      exact ⟨⟨rfl, (ih.1 hrest).1⟩, hv, (ih.1 hrest).2⟩
    · rintro ⟨⟨rfl, hnames⟩, hv, hvalues⟩
      exact ⟨v, filled, hv, ih.2 ⟨hnames, hvalues⟩, rfl⟩

end Field

end Complete

section Fill

namespace Field

variable {strictness : Strictness} {found : List (String × Json)} {given : List (String × Draft)}
  {f g : Field} {d : Draft} {v w : Json} {name : String}

/-- What a draft that is given for a field comes to. -/
def take (strictness : Strictness) (f : Field) (d : Draft) : Except Cause Json :=
  if f.leavesOut d then .ok .null else d.conform strictness f.shape

/-- The value of a field among members, of which some were found before. -/
def Comes (strictness : Strictness) (found : List (String × Json)) (given : List (String × Draft))
    (f : Field) (v : Json) : Prop :=
  (∃ d, (f.name, d) ∈ given ∧ f.take strictness d = .ok v)
    ∨ (f.name ∉ given.map Prod.fst ∧ f.look found = .ok v)

theorem comes_cons_iff (h : f.name ≠ name) :
    f.Comes strictness found ((name, d) :: given) v ↔ f.Comes strictness found given v := by
  simp [Comes, h]

theorem comes_found_iff (h : f.name ≠ name) :
    f.Comes strictness ((name, w) :: found) given v ↔ f.Comes strictness found given v := by
  have hlook : f.look ((name, w) :: found) = f.look found := by
    rw [look, List.lookup_cons, beq_false_of_ne h]
    rfl
  rw [Comes, hlook]
  rfl

theorem comes_given_iff (h : f.name ∉ given.map Prod.fst) :
    f.Comes strictness found ((f.name, d) :: given) v ↔ f.take strictness d = .ok v := by
  have hd (d' : Draft) : (f.name, d') ∉ given := fun hmem => h (List.mem_map_of_mem hmem)
  simp [Comes, hd]

theorem comes_found_self_iff (h : f.name ∉ given.map Prod.fst) :
    f.Comes strictness ((f.name, w) :: found) given v ↔ v = w := by
  have hd (d' : Draft) : (f.name, d') ∉ given := fun hmem => h (List.mem_map_of_mem hmem)
  have hlook : f.look ((f.name, w) :: found) = .ok w := by
    rw [look, List.lookup_cons_self]
  simp only [Comes, hd, hlook, h, false_and, exists_false, false_or, not_false_eq_true, true_and,
    Except.ok.injEq]
  exact eq_comm

end Field

/-- The members that are still given fill the fields. -/
structure Fills (strictness : Strictness) (fields : List Field) (found : List (String × Json))
    (given : List (String × Draft)) (filled : List (String × Json)) : Prop where
  byName : ByName strictness fields given
  new : ∀ m ∈ given, m.1 ∈ fields.map Field.name → m.1 ∉ found.map Prod.fst
  names : filled.map Prod.fst = fields.map Field.name
  values : ∀ p ∈ fields.zip filled, p.1.Comes strictness found given p.2.2

namespace Fills

variable {strictness : Strictness} {fields : List Field} {found filled : List (String × Json)}
  {given : List (String × Draft)} {f : Field} {d : Draft} {v : Json} {name : String}

theorem nil_iff : Fills strictness fields found [] filled
    ↔ Field.complete found fields = .ok filled := by
  rw [Field.complete_eq_ok_iff]
  constructor
  · intro h
    refine ⟨h.names, fun p hp => ?_⟩
    have hvalue := h.values p hp
    simpa [Field.Comes] using hvalue
  · rintro ⟨hnames, hvalues⟩
    refine ⟨⟨by simp, by simp⟩, by simp, hnames, fun p hp => .inr ⟨by simp, hvalues p hp⟩⟩

/-- A member that no field is named for counts for nothing. -/
theorem cons_iff_of_notMem (hname : name ∉ fields.map Field.name) :
    Fills strictness fields found ((name, d) :: given) filled
      ↔ (strictness = .streamed → d.skip = .ok ())
        ∧ Fills strictness fields found given filled := by
  have hcomes : ∀ p ∈ fields.zip filled, p.1.Comes strictness found ((name, d) :: given) p.2.2
      ↔ p.1.Comes strictness found given p.2.2 := fun p hp => by
    refine Field.comes_cons_iff fun hne => hname ?_
    exact hne ▸ List.mem_map_of_mem (List.of_mem_zip hp).1
  have hfilter : (((name, d) :: given).map Prod.fst).filter (· ∈ fields.map Field.name)
      = (given.map Prod.fst).filter (· ∈ fields.map Field.name) :=
    List.filter_cons_of_neg (by rwa [decide_eq_true_eq])
  constructor
  · rintro ⟨⟨honce, hskipped⟩, hnew, hnames, hvalues⟩
    rw [hfilter] at honce
    rw [List.forall_mem_cons] at hnew
    exact ⟨fun hs => hskipped hs _ List.mem_cons_self hname,
      ⟨honce, fun hs m hm => hskipped hs m (List.mem_cons_of_mem _ hm)⟩, hnew.2, hnames,
      fun p hp => (hcomes p hp).1 (hvalues p hp)⟩
  · rintro ⟨hskip, ⟨honce, hskipped⟩, hnew, hnames, hvalues⟩
    exact ⟨⟨by rwa [hfilter], fun hs => List.forall_mem_cons.2 ⟨fun _ => hskip hs, hskipped hs⟩⟩,
      List.forall_mem_cons.2 ⟨fun hc => absurd hc hname, hnew⟩, hnames,
      fun p hp => (hcomes p hp).2 (hvalues p hp)⟩

theorem exists_mem_zip (hnames : filled.map Prod.fst = fields.map Field.name) (hf : f ∈ fields) :
    ∃ m, (f, m) ∈ fields.zip filled := by
  have hzip : (fields.zip filled).map Prod.fst = fields := by
    refine List.map_fst_zip ?_
    rw [← List.length_map (f := Field.name), ← hnames, List.length_map]
  obtain ⟨⟨g, m⟩, hm, rfl⟩ := List.mem_map.1 (hzip.symm ▸ hf)
  exact ⟨m, hm⟩

/-- What is taken for a field now or was found for it before comes to the same. -/
theorem comes_take_iff {g : Field} {w : Json} (hdistinct : (fields.map Field.name).Nodup)
    (hf : f ∈ fields) (hg : g ∈ fields) (hgone : f.name ∉ given.map Prod.fst)
    (hv : f.take strictness d = .ok v) : g.Comes strictness found ((f.name, d) :: given) w
      ↔ g.Comes strictness ((f.name, v) :: found) given w := by
  by_cases hname : g.name = f.name
  · obtain rfl := List.inj_on_of_nodup_map hdistinct hg hf hname
    rw [Field.comes_given_iff hgone, Field.comes_found_self_iff hgone, hv, Except.ok.injEq]
    exact eq_comm
  · rw [Field.comes_cons_iff hname, Field.comes_found_iff hname]

/-- A member that a field is named for gives its value, which counts as found after that. -/
theorem cons_iff_of_mem (hdistinct : (fields.map Field.name).Nodup) (hf : f ∈ fields) :
    Fills strictness fields found ((f.name, d) :: given) filled
      ↔ f.name ∉ found.map Prod.fst ∧ ∃ v, f.take strictness d = .ok v
        ∧ Fills strictness fields ((f.name, v) :: found) given filled := by
  have hmem : f.name ∈ fields.map Field.name := List.mem_map_of_mem hf
  have hfilter : (((f.name, d) :: given).map Prod.fst).filter (· ∈ fields.map Field.name)
      = f.name :: (given.map Prod.fst).filter (· ∈ fields.map Field.name) :=
    List.filter_cons_of_pos (by rwa [decide_eq_true_eq])
  constructor
  · rintro ⟨⟨honce, hskipped⟩, hnew, hnames, hvalues⟩
    rw [hfilter, List.nodup_cons, List.mem_filter, decide_eq_true_eq, not_and] at honce
    rw [List.forall_mem_cons] at hnew
    have hgone : f.name ∉ given.map Prod.fst := fun hc => honce.1 hc hmem
    obtain ⟨⟨name, v⟩, hp⟩ := exists_mem_zip hnames hf
    have hv := (Field.comes_given_iff hgone).1 (hvalues _ hp)
    refine ⟨hnew.1 hmem, v, hv, ⟨honce.2, fun hs m hm => hskipped hs m (.tail _ hm)⟩,
      fun m hm hknown hc => ?_, hnames, fun p hq =>
        (comes_take_iff hdistinct hf (List.of_mem_zip hq).1 hgone hv).1 (hvalues p hq)⟩
    rcases List.mem_cons.1 hc with hname | hc
    · have hsame : m.1 = f.name := hname
      exact hgone (hsame ▸ List.mem_map_of_mem hm)
    · exact hnew.2 m hm hknown hc
  · -- The field counts as found by now, so that no further member has its name.
    rintro ⟨hfresh, v, hv, ⟨honce, hskipped⟩, hnew, hnames, hvalues⟩
    have hgone : f.name ∉ given.map Prod.fst := fun hc => by
      obtain ⟨m, hm, hname⟩ := List.mem_map.1 hc
      exact hnew m hm (hname ▸ hmem) (hname ▸ List.mem_cons_self)
    refine ⟨⟨?_, fun hs => List.forall_mem_cons.2 ⟨fun hc => absurd hmem hc, hskipped hs⟩⟩,
      List.forall_mem_cons.2 ⟨fun _ => hfresh, fun m hm hknown hc =>
        hnew m hm hknown (List.mem_cons_of_mem _ hc)⟩, hnames, fun p hp =>
        (comes_take_iff hdistinct hf (List.of_mem_zip hp).1 hgone hv).2 (hvalues p hp)⟩
    rw [hfilter, List.nodup_cons]
    exact ⟨fun hc => hgone (List.mem_filter.1 hc).1, honce⟩

end Fills

section Members

theorem Members.exists_toList?_cons_iff {name : String} {value : Draft} {rest : Members}
    {P : List (String × Draft) → Prop} :
    (∃ given, (Members.cons (some name) value rest).toList? = some given ∧ P given)
      ↔ ∃ given, rest.toList? = some given ∧ P ((name, value) :: given) := by
  rw [toList?]
  cases rest.toList? <;> simp

variable {strictness : Strictness} {fields : List Field} {found filled : List (String × Json)}
  {f : Field} {name : String} {value : Draft} {rest : Members}

/-- A check in front of a reading. -/
theorem guarded_eq_ok_iff {α : Type} {p : Prop} [Decidable p] {check : Except Cause Unit}
    {next : Except Cause α} {a : α} :
    (if p then check >>= fun _ => next else next) = .ok a
      ↔ (p → check = .ok ()) ∧ next = .ok a := by
  split
  case isTrue hp =>
    rw [bind_eq_ok_iff]
    exact ⟨fun ⟨⟨⟩, h, hnext⟩ => ⟨fun _ => h, hnext⟩, fun ⟨h, hnext⟩ => ⟨(), h hp, hnext⟩⟩
  case isFalse hp => simp [hp]

theorem fill_eq_ok_iff_of_notMem (hname : name ∉ fields.map Field.name) :
    (Members.cons (some name) value rest).fill strictness fields found = .ok filled
      ↔ (strictness = .streamed → value.skip = .ok ())
        ∧ rest.fill strictness fields found = .ok filled := by
  have hfind : fields.find? (·.name = name) = none := by
    refine List.find?_eq_none.2 fun f hf heq => hname ?_
    exact of_decide_eq_true heq ▸ List.mem_map_of_mem hf
  rw [Members.fill]
  simp only [hfind]
  exact guarded_eq_ok_iff

theorem fill_eq_ok_iff_of_mem (hdistinct : (fields.map Field.name).Nodup) (hf : f ∈ fields) :
    (Members.cons (some f.name) value rest).fill strictness fields found = .ok filled
      ↔ f.name ∉ found.map Prod.fst ∧ ∃ v, f.take strictness value = .ok v
        ∧ rest.fill strictness fields ((f.name, v) :: found) = .ok filled := by
  by_cases hnew : f.name ∈ found.map Prod.fst
  · have hmet : (found.lookup f.name).isSome = true := by
      rw [← Option.ne_none_iff_isSome, Ne, List.lookup_eq_none_iff]
      obtain ⟨m, hm, hname⟩ := List.mem_map.1 hnew
      exact fun hnone => by simpa [hname] using hnone m hm
    rw [Members.fill]
    simp only [find?_name hdistinct hf, hmet, if_true, hnew, not_true_eq_false, false_and,
      iff_false]
    exact nofun
  · rw [fill_cons strictness value rest hdistinct hf hnew, ← Field.take, bind_eq_ok_iff]
    simp only [hnew, not_false_eq_true, true_and]

theorem Members.fill_eq_ok_iff (hdistinct : (fields.map Field.name).Nodup) :
    ∀ (members : Members) {found : List (String × Json)},
      members.fill strictness fields found = .ok filled
        ↔ ∃ given, members.toList? = some given ∧ Fills strictness fields found given filled
  | .closed, found => by
    simp [Members.fill, toList?, Fills.nil_iff]
  | .broken b, found => by
    simp [Members.fill, toList?]
  | .cons none value rest, found => by
    simp [Members.fill, toList?]
  | .cons (some name) value rest, found => by
    rw [exists_toList?_cons_iff]
    by_cases hname : name ∈ fields.map Field.name
    · obtain ⟨f, hf, rfl⟩ := List.mem_map.1 hname
      simp only [fill_eq_ok_iff_of_mem hdistinct hf, Fills.cons_iff_of_mem hdistinct hf,
        fill_eq_ok_iff hdistinct rest]
      constructor
      · rintro ⟨hnew, v, hv, given, hrest, hfills⟩
        exact ⟨given, hrest, hnew, v, hv, hfills⟩
      · rintro ⟨given, hrest, hnew, v, hv, hfills⟩
        exact ⟨hnew, v, hv, given, hrest, hfills⟩
    · simp only [fill_eq_ok_iff_of_notMem hname, Fills.cons_iff_of_notMem hname,
        fill_eq_ok_iff hdistinct rest]
      constructor
      · rintro ⟨hskip, given, hrest, hfills⟩
        exact ⟨given, hrest, hskip, hfills⟩
      · rintro ⟨given, hrest, hskip, hfills⟩
        exact ⟨hskip, given, hrest, hfills⟩

end Members

end Fill

section Tag

variable {strictness : Strictness} {key : String} {variants : List (String × List Field)}
  {variant : String × List Field}

/-- The tag is among the members that are still given, or it was found before. -/
def Finds (strictness : Strictness) (key : String) (variants : List (String × List Field))
    (found : Option (String × List Field)) (given : List (String × Draft))
    (variant : String × List Field) : Prop :=
  (strictness = .streamed → ∀ m ∈ given, m.1 ≠ key → m.2.check innerLevels = .ok ())
    ∧ match found with
      | none => (given.map Prod.fst).count key = 1
        ∧ ∃ d, (key, d) ∈ given ∧ readTag strictness variants d = .ok variant
      | some known => known = variant ∧ key ∉ given.map Prod.fst

namespace Finds

variable {found : Option (String × List Field)} {given : List (String × Draft)} {value : Draft}
  {name : String}

theorem cons_iff_of_ne (hname : name ≠ key) :
    Finds strictness key variants found ((name, value) :: given) variant
      ↔ (strictness = .streamed → value.check innerLevels = .ok ())
        ∧ Finds strictness key variants found given variant := by
  have hchecked : (strictness = .streamed →
      ∀ m ∈ (name, value) :: given, m.1 ≠ key → m.2.check innerLevels = .ok ())
        ↔ (strictness = .streamed → value.check innerLevels = .ok ())
          ∧ (strictness = .streamed → ∀ m ∈ given, m.1 ≠ key → m.2.check innerLevels = .ok ()) := by
    rw [← imp_and]
    simp only [List.forall_mem_cons, hname, ne_eq, not_false_eq_true, true_imp_iff]
  unfold Finds
  rw [hchecked, and_assoc]
  cases found with
  | none => simp [List.count_cons_of_ne hname, Ne.symm hname]
  | some known => simp [Ne.symm hname]

theorem cons_self_iff : Finds strictness key variants none ((key, value) :: given) variant
    ↔ readTag strictness variants value = .ok variant
      ∧ Finds strictness key variants (some variant) given variant := by
  have hchecked : (strictness = .streamed →
      ∀ m ∈ (key, value) :: given, m.1 ≠ key → m.2.check innerLevels = .ok ())
        ↔ (strictness = .streamed → ∀ m ∈ given, m.1 ≠ key → m.2.check innerLevels = .ok ()) := by
    simp
  unfold Finds
  rw [hchecked]
  simp only [List.map_cons, List.count_cons_self, Nat.add_eq_right, List.count_eq_zero, true_and]
  constructor
  · rintro ⟨hgiven, hkey, d, hd, htag⟩
    rcases List.mem_cons.1 hd with heq | hd
    · obtain ⟨-, rfl⟩ := Prod.mk.inj heq
      exact ⟨htag, hgiven, hkey⟩
    · exact absurd (List.mem_map_of_mem hd) hkey
  · rintro ⟨htag, hgiven, hkey⟩
    exact ⟨hgiven, hkey, value, List.mem_cons_self, htag⟩

theorem not_cons_self {known : String × List Field} :
    ¬ Finds strictness key variants (some known) ((key, value) :: given) variant := by
  rintro ⟨-, -, hkey⟩
  exact hkey List.mem_cons_self

end Finds

theorem findTag_eq_ok_iff : ∀ (members : Members) (found : Option (String × List Field)),
    findTag strictness key variants found members = .ok variant
      ↔ ∃ given, members.toList? = some given
        ∧ Finds strictness key variants found given variant
  | .closed, found => by
    cases found <;> simp [findTag, Members.toList?, Finds]
  | .broken b, found => by
    simp [findTag, Members.toList?]
  | .cons none value rest, found => by
    simp [findTag, Members.toList?]
  | .cons (some name) value rest, found => by
    have ih (known : Option (String × List Field)) :=
      findTag_eq_ok_iff rest known
    rw [Members.exists_toList?_cons_iff, findTag]
    by_cases hname : name = key
    · rw [if_pos hname, hname]
      cases found with
      | some known => simp [Finds.not_cons_self]
      | none =>
        simp only [Option.isSome_none, Bool.false_eq_true, if_false, bind_eq_ok_iff, ih,
          Finds.cons_self_iff]
        constructor
        · rintro ⟨known, htag, given, hrest, hfinds⟩
          obtain rfl := hfinds.2.1
          exact ⟨given, hrest, htag, hfinds⟩
        · rintro ⟨given, hrest, htag, hfinds⟩
          exact ⟨variant, htag, given, hrest, hfinds⟩
    · rw [if_neg hname, guarded_eq_ok_iff, ih]
      simp only [Finds.cons_iff_of_ne hname]
      exact ⟨fun ⟨hcheck, given, hrest, hfinds⟩ => ⟨given, hrest, hcheck, hfinds⟩,
        fun ⟨given, hrest, hcheck, hfinds⟩ => ⟨hcheck, given, hrest, hfinds⟩⟩

/-- Without a tag that was found before, the one member under the key is the tag. -/
theorem tells_iff_finds {given : List (String × Draft)} :
    Tells strictness key variants given variant
      ↔ Finds strictness key variants none given variant :=
  ⟨fun h => ⟨h.checked, h.once, h.tag⟩, fun h => ⟨h.2.2, h.2.1, h.1⟩⟩

theorem choiceMember_eq_ok_iff {names : List String} {members : Members} {v : Json} :
    choiceMember names members = .ok v
      ↔ ∃ name ∈ names, members = .cons (some name) .null .closed ∧ v = .string name := by
  constructor
  · intro h
    unfold choiceMember at h
    split at h
    · cases h
    · cases h
    · cases h
    · rename_i name value rest
      by_cases hname : name ∈ names
      · rw [if_neg (not_not_intro hname)] at h
        split at h
        · split at h
          · exact ⟨name, hname, rfl, (Except.ok.inj h).symm⟩
          · cases h
          · cases h
        · cases h
      · rw [if_pos hname] at h
        cases h
  · rintro ⟨name, hname, rfl, rfl⟩
    simp [choiceMember, hname]

end Tag

end PitFleet.Json
