import Mathlib
import PitFleet.Proofs.Json.Fitting
import PitFleet.Proofs.Number.Remainder

/-!
# What is read is finite

A numeral beyond all doubles has no value, so that the numbers of a draft are finite (`scan_finite`).
Hence so are the doubles of a value that a text is read as, along a shape whose defaults are finite
(`Shape.finite_of_read`).
-/

namespace PitFleet.Json

/-- All doubles of a value are finite. -/
def Finite (v : Json) : Prop :=
  ∀ x ∈ v.reals, x.isFinite = true

mutual

/-- All numbers of a draft are finite as doubles. -/
def Draft.Finite : Draft → Prop
  | .number (some n) => n.toReal.isFinite = true
  | .array items => items.Finite
  | .object members => members.Finite
  | _ => True

def Items.Finite : Items → Prop
  | .cons item rest => item.Finite ∧ rest.Finite
  | _ => True

def Members.Finite : Members → Prop
  | .cons _ value rest => value.Finite ∧ rest.Finite
  | _ => True

end

section Numbers

theorem isFinite_round {m : ℕ} (negative : Bool) (h : m < UInt64.size) :
    (Double.round negative m 0).isFinite = true := by
  have hsize : Double.sizeBits m 0
      ≤ ((12 : ℤ) - Double.leastExponent).toNat * Double.fieldSize + Double.fieldSize :=
    Double.sizeBits_le (d := 12) (by decide) rfl (by decide) h
  have hsmall : ((12 : ℤ) - Double.leastExponent).toNat * Double.fieldSize + Double.fieldSize
      < Double.lastPlace * Double.fieldSize := by decide
  obtain ⟨m', e', hdecode, -⟩ := Double.decode_round negative (hsize.trans_lt hsmall)
  exact Double.isFinite_iff.2 ⟨_, _, _, hdecode⟩

theorem isFinite_of_numeralValue {negative : Bool} {whole : List Char}
    {fraction : Option (List Char)} {exponent : Option ℤ} {n : Number}
    (h : numeralValue negative whole fraction exponent = some n) : n.toReal.isFinite = true := by
  unfold numeralValue at h
  dsimp only at h
  generalize (if negative = true then -(Reading.ofDigits whole : ℤ)
    else (Reading.ofDigits whole : ℤ)) = k at h
  split at h
  case isTrue hfits =>
    obtain rfl := Option.some.inj h
    have hbits := hfits.2.2.1
    have hmin : Int64.minValue.toInt = -9223372036854775808 := by decide
    have hmax : UInt64.size = 18446744073709551616 := rfl
    exact isFinite_round _ (by omega)
  case isFalse =>
    obtain ⟨hx, hn⟩ := Option.ite_none_right_eq_some.1 h
    obtain rfl := Option.some.inj hn
    exact hx

theorem isFinite_of_unsigned {negative : Bool} {cs rest : List Char} {n : Number}
    (h : unsigned negative cs = .ok (some n, rest)) : n.toReal.isFinite = true := by
  obtain ⟨⟨whole, cs₁⟩, -, h⟩ := bind_eq_ok_iff.1 h
  obtain ⟨⟨fraction, cs₂⟩, -, h⟩ := bind_eq_ok_iff.1 h
  obtain ⟨⟨exponent, cs₃⟩, -, h⟩ := bind_eq_ok_iff.1 h
  exact isFinite_of_numeralValue (Prod.mk.inj (Except.ok.inj h)).1

theorem isFinite_of_numeral {cs rest : List Char} {n : Number}
    (h : numeral cs = .ok (some n, rest)) : n.toReal.isFinite = true := by
  rcases cs with _ | ⟨c, cs⟩
  · cases h
  · by_cases hc : c = '-'
    · subst hc
      have hunsigned : unsigned true cs = .ok (some n, rest) := h
      exact isFinite_of_unsigned hunsigned
    · rw [numeral_of_ne hc] at h
      exact isFinite_of_unsigned h

end Numbers

section Scan

theorem word_finite {d : Draft} (hd : d.Finite) : ∀ ws cs : List Char, (word d ws cs).1.Finite
  | [], _ => hd
  | _ :: _, [] => trivial
  | w :: ws, c :: cs => by
    rw [word]
    split
    · exact word_finite hd ws cs
    · trivial

section Step

variable {fuel : ℕ} (hvalue : ∀ cs, (scanValue fuel cs).1.Finite)
  (hitems : ∀ cs, (scanItems fuel cs).1.Finite) (hmembers : ∀ cs, (scanMembers fuel cs).1.Finite)

include hitems hmembers in
theorem scanValue_finite (cs : List Char) : (scanValue (fuel + 1) cs).1.Finite := by
  have hnull : Draft.Finite .null := trivial
  have hbool (b : Bool) : Draft.Finite (.bool b) := trivial
  rw [scanValue]
  split
  · trivial
  · dsimp only
    split
    · trivial
    · exact hitems _
  · dsimp only
    split
    · trivial
    · exact hmembers _
  · split <;> trivial
  · exact word_finite hnull _ _
  · exact word_finite (hbool true) _ _
  · exact word_finite (hbool false) _ _
  · split
    · split
      · rename_i n rest hn
        cases n with
        | none => trivial
        | some n => exact isFinite_of_numeral hn
      · trivial
    · trivial

include hvalue hitems in
theorem scanItems_finite (cs : List Char) : (scanItems (fuel + 1) cs).1.Finite := by
  have hfirst := hvalue cs
  rw [scanItems]
  generalize scanValue fuel cs = scanned at hfirst
  rcases scanned with ⟨item, _ | rest⟩
  · exact ⟨hfirst, trivial⟩
  · dsimp only
    split
    · exact ⟨hfirst, hitems _⟩
    all_goals exact ⟨hfirst, trivial⟩

include hvalue hmembers in
theorem scanMembers_finite (cs : List Char) : (scanMembers (fuel + 1) cs).1.Finite := by
  rw [scanMembers]
  split
  · trivial
  · split
    · trivial
    · split
      · rename_i cs' _
        have hfirst := hvalue cs'
        generalize scanValue fuel cs' = scanned at hfirst
        rcases scanned with ⟨value, _ | rest⟩
        · exact ⟨hfirst, trivial⟩
        · dsimp only
          split
          · exact ⟨hfirst, hmembers _⟩
          all_goals exact ⟨hfirst, trivial⟩
      all_goals exact ⟨trivial, trivial⟩
  · trivial

end Step

theorem scan_finite (cs : List Char) : (scan cs).1.Finite := by
  have h : ∀ fuel : ℕ, (∀ cs, (scanValue fuel cs).1.Finite)
      ∧ (∀ cs, (scanItems fuel cs).1.Finite) ∧ ∀ cs, (scanMembers fuel cs).1.Finite := by
    intro fuel
    induction fuel with
    | zero => exact ⟨fun _ => trivial, fun _ => trivial, fun _ => trivial⟩
    | succ fuel ih =>
      obtain ⟨hvalue, hitems, hmembers⟩ := ih
      exact ⟨scanValue_finite hitems hmembers, scanItems_finite hvalue hitems,
        scanMembers_finite hvalue hmembers⟩
  exact (h _).1 cs

end Scan

section Conform

theorem finite_null : null.Finite :=
  nofun

theorem finite_string (s : String) : (string s).Finite :=
  nofun

theorem finite_array {items : List Json} (h : ∀ v ∈ items, v.Finite) : (array items).Finite := by
  induction items with
  | nil => exact nofun
  | cons item items ih =>
    rw [List.forall_mem_cons] at h
    exact List.forall_mem_append.2 ⟨h.1, ih h.2⟩

theorem finite_object {members : List (String × Json)} (h : ∀ m ∈ members, m.2.Finite) :
    (object members).Finite := by
  induction members with
  | nil => exact nofun
  | cons m members ih =>
    rw [List.forall_mem_cons] at h
    exact List.forall_mem_append.2 ⟨h.1, ih h.2⟩

mutual

/-- All defaults of a shape are finite. -/
inductive Shape.Settled : Shape → Prop
  | real : Shape.Settled .real
  | integer (least greatest : ℤ) : Shape.Settled (.integer least greatest)
  | flag : Shape.Settled .flag
  | text : Shape.Settled .text
  | choice (names : List String) : Shape.Settled (.choice names)
  | list {item : Shape} (h : Shape.Settled item) : Shape.Settled (.list item)
  | record {fields : List Field} (h : ∀ f ∈ fields, Field.Settled f) :
    Shape.Settled (.record fields)
  | tagged {key : String} {variants : List (String × List Field)}
    (h : ∀ variant ∈ variants, ∀ f ∈ variant.2, Field.Settled f) :
    Shape.Settled (.tagged key variants)

inductive Field.Settled : Field → Prop
  | mk {name : String} {shape : Shape} {presence : Presence} (hshape : Shape.Settled shape)
    (hdefault : ∀ value, presence = .orElse value → value.Finite) :
    Field.Settled (.mk name shape presence)

end

theorem Field.Settled.shape {f : Field} (h : f.Settled) : f.shape.Settled := by
  cases h with
  | mk hshape => exact hshape

theorem Field.Settled.missing {f : Field} (h : f.Settled) {v : Json} (hv : f.missing = .ok v) :
    v.Finite := by
  cases h with
  | @mk name shape presence hshape hdefault =>
    unfold Field.missing at hv
    split at hv
    · cases hv
    · rename_i value hpresence
      obtain rfl := Except.ok.inj hv
      exact hdefault _ hpresence
    · obtain rfl := Except.ok.inj hv
      exact nofun

theorem Field.complete_finite {found : List (String × Json)} (hfound : ∀ m ∈ found, m.2.Finite) :
    ∀ {fields : List Field} {members : List (String × Json)}, (∀ f ∈ fields, f.Settled) →
      complete found fields = .ok members → ∀ m ∈ members, m.2.Finite
  | [], members, _, h => by
    obtain rfl := Except.ok.inj h
    exact nofun
  | f :: fields, members, hs, h => by
    rw [List.forall_mem_cons] at hs
    have hfirst : ∃ v, v.Finite ∧ (complete found fields >>= fun rest =>
        return (f.name, v) :: rest) = .ok members := by
      rw [complete] at h
      split at h
      · rename_i value hlookup
        obtain ⟨before, after, rfl, -⟩ := List.lookup_eq_some_iff.1 hlookup
        exact ⟨value, hfound _ (List.mem_append_right _ List.mem_cons_self), h⟩
      · obtain ⟨v, hv, h⟩ := bind_eq_ok_iff.1 h
        exact ⟨v, hs.1.missing hv, h⟩
    obtain ⟨v, hv, h⟩ := hfirst
    obtain ⟨rest, hrest, h⟩ := bind_eq_ok_iff.1 h
    obtain rfl := Except.ok.inj h
    exact List.forall_mem_cons.2 ⟨hv, complete_finite hfound hs.2 hrest⟩

/-- A check in front of a reading that has a result. -/
theorem eq_ok_of_guarded {α : Type} {p : Prop} [Decidable p] {check : Except Cause Unit}
    {next : Except Cause α} {a : α}
    (h : (if p then check >>= fun _ => next else next) = .ok a) : next = .ok a := by
  split at h
  · exact (bind_eq_ok_iff.1 h).choose_spec.2
  · exact h

theorem mem_of_readTag {strictness : Strictness} {variants : List (String × List Field)}
    {tag : Draft} {variant : String × List Field}
    (h : readTag strictness variants tag = .ok variant) : variant ∈ variants := by
  unfold readTag at h
  dsimp only at h
  split at h
  · rename_i found hfound
    obtain rfl := Except.ok.inj h
    split at hfound
    · exact List.mem_of_find?_eq_some hfound
    · split at hfound
      · exact List.mem_of_getElem? hfound
      · cases hfound
    · cases hfound
  · cases h

theorem mem_of_findTag {strictness : Strictness} {key : String}
    {variants : List (String × List Field)} {variant : String × List Field} :
    ∀ {found : Option (String × List Field)} {members : Members},
      (∀ known ∈ found, known ∈ variants) →
      findTag strictness key variants found members = .ok variant → variant ∈ variants
  | found, .closed, hfound, h => by
    unfold findTag at h
    split at h
    · obtain rfl := Except.ok.inj h
      exact hfound _ rfl
    · cases h
  | _, .broken b, _, h => by cases h
  | _, .cons none _ _, _, h => by cases h
  | found, .cons (some name) value rest, hfound, h => by
    rw [findTag] at h
    split at h
    · split at h
      · cases h
      · obtain ⟨known, hknown, h⟩ := bind_eq_ok_iff.1 h
        refine mem_of_findTag (fun other hother => ?_) h
        obtain rfl := Option.some.inj hother
        exact mem_of_readTag hknown
    · exact mem_of_findTag hfound (eq_ok_of_guarded h)

theorem choiceMember_finite {names : List String} {members : Members} {v : Json}
    (h : choiceMember names members = .ok v) : v.Finite := by
  unfold choiceMember at h
  split at h
  · cases h
  · cases h
  · cases h
  · replace h := eq_ok_of_guarded h
    split at h
    · split at h
      · obtain rfl := Except.ok.inj h
        exact finite_string _
      · cases h
      · cases h
    · cases h

mutual

/-- What a draft of finite numbers is read as is finite. -/
theorem Draft.Finite.conform {strictness : Strictness} : ∀ {d : Draft} {shape : Shape} {v : Json},
    d.Finite → shape.Settled → d.conform strictness shape = .ok v → v.Finite
  | .null, shape, v, _, _, h => by
    unfold Draft.conform at h
    split at h <;> cases h
  | .bool b, shape, v, _, _, h => by
    unfold Draft.conform at h
    split at h <;> cases h
    exact nofun
  | .number n, shape, v, hd, _, h => by
    unfold Draft.conform at h
    split at h
    · obtain rfl := Except.ok.inj h
      exact List.forall_mem_singleton.2 hd
    · split at h <;> cases h
      exact nofun
    all_goals cases h
  | .string s, shape, v, _, _, h => by
    unfold Draft.conform at h
    split at h
    · cases h
    · cases h
      exact nofun
    · split at h <;> cases h
      exact nofun
    · cases h
  | .array items, shape, v, hd, hs, h => by
    unfold Draft.conform at h
    cases hs with
    | list hitem =>
      obtain ⟨values, hvalues, h⟩ := bind_eq_ok_iff.1 h
      obtain rfl := Except.ok.inj h
      exact finite_array (Items.Finite.conform hd hitem hvalues)
    | record hfields =>
      obtain ⟨members, hmembers, h⟩ := bind_eq_ok_iff.1 h
      obtain rfl := Except.ok.inj h
      exact finite_object (Items.Finite.fill hd hfields hmembers)
    | tagged hvariants => exact Items.Finite.fillTagged hd hvariants h
    | _ => cases h
  | .object members, shape, v, hd, hs, h => by
    unfold Draft.conform at h
    cases hs with
    | record hfields =>
      obtain ⟨found, hfound, h⟩ := bind_eq_ok_iff.1 h
      obtain rfl := Except.ok.inj h
      exact finite_object (Members.Finite.fill hd hfields (List.forall_mem_nil _) hfound)
    | tagged hvariants =>
      obtain ⟨⟨name, fields⟩, hvariant, h⟩ := bind_eq_ok_iff.1 h
      obtain ⟨found, hfound, h⟩ := bind_eq_ok_iff.1 h
      obtain rfl := Except.ok.inj h
      have hfields := hvariants (name, fields) (by
        refine mem_of_findTag ?_ hvariant
        exact nofun)
      exact finite_object (List.forall_mem_cons.2
        ⟨finite_string name, Members.Finite.fill hd hfields (List.forall_mem_nil _) hfound⟩)
    | choice => exact choiceMember_finite h
    | _ => cases h
  | .broken b, shape, v, _, _, h => by
    unfold Draft.conform at h
    split at h <;> cases h

theorem Items.Finite.conform {strictness : Strictness} : ∀ {items : Items} {shape : Shape}
    {values : List Json}, items.Finite → shape.Settled →
    items.conform strictness shape = .ok values → ∀ v ∈ values, v.Finite
  | .closed, shape, values, _, _, h => by
    obtain rfl := Except.ok.inj h
    exact nofun
  | .broken b, shape, values, _, _, h => by cases h
  | .cons item rest, shape, values, hd, hs, h => by
    obtain ⟨v, hv, h⟩ := bind_eq_ok_iff.1 h
    obtain ⟨others, hothers, h⟩ := bind_eq_ok_iff.1 h
    obtain rfl := Except.ok.inj h
    exact List.forall_mem_cons.2
      ⟨Draft.Finite.conform hd.1 hs hv, Items.Finite.conform hd.2 hs hothers⟩

theorem Items.Finite.fill {strictness : Strictness} : ∀ {items : Items} {fields : List Field}
    {members : List (String × Json)}, items.Finite → (∀ f ∈ fields, f.Settled) →
    items.fill strictness fields = .ok members → ∀ m ∈ members, m.2.Finite
  | .closed, fields, members, _, hs, h => Field.complete_finite (List.forall_mem_nil _) hs h
  | .broken b, fields, members, _, _, h => by cases h
  | .cons item rest, fields, members, hd, hs, h => by
    unfold Items.fill at h
    cases fields with
    | nil =>
      cases strictness with
      | lenient =>
        obtain rfl := Except.ok.inj h
        exact nofun
      | _ => cases h
    | cons f fields =>
      rw [List.forall_mem_cons] at hs
      have hfirst : ∃ v, v.Finite ∧ (rest.fill strictness fields >>= fun others =>
          return (f.name, v) :: others) = .ok members := by
        dsimp only at h
        split at h
        · exact ⟨.null, finite_null, h⟩
        · obtain ⟨v, hv, h⟩ := bind_eq_ok_iff.1 h
          exact ⟨v, Draft.Finite.conform hd.1 hs.1.shape hv, h⟩
      obtain ⟨v, hv, h⟩ := hfirst
      obtain ⟨others, hothers, h⟩ := bind_eq_ok_iff.1 h
      obtain rfl := Except.ok.inj h
      exact List.forall_mem_cons.2 ⟨hv, Items.Finite.fill hd.2 hs.2 hothers⟩

theorem Items.Finite.fillTagged {strictness : Strictness} {key : String}
    {variants : List (String × List Field)} : ∀ {items : Items} {v : Json}, items.Finite →
    (∀ variant ∈ variants, ∀ f ∈ variant.2, f.Settled) →
    items.fillTagged strictness key variants = .ok v → v.Finite
  | .closed, v, _, _, h => by cases h
  | .broken b, v, _, _, h => by cases h
  | .cons tag rest, v, hd, hs, h => by
    obtain ⟨⟨name, fields⟩, hvariant, h⟩ := bind_eq_ok_iff.1 h
    obtain ⟨members, hmembers, h⟩ := bind_eq_ok_iff.1 (eq_ok_of_guarded h)
    obtain rfl := Except.ok.inj h
    have hfields := hs _ (mem_of_readTag hvariant)
    exact finite_object (List.forall_mem_cons.2
      ⟨finite_string name, Items.Finite.fill hd.2 hfields hmembers⟩)

theorem Members.Finite.fill {strictness : Strictness} : ∀ {members : Members}
    {fields : List Field} {found filled : List (String × Json)}, members.Finite →
    (∀ f ∈ fields, f.Settled) → (∀ m ∈ found, m.2.Finite) →
    members.fill strictness fields found = .ok filled → ∀ m ∈ filled, m.2.Finite
  | .closed, fields, found, filled, _, hs, hfound, h => Field.complete_finite hfound hs h
  | .broken b, fields, found, filled, _, _, _, h => by cases h
  | .cons none value rest, fields, found, filled, _, _, _, h => by cases h
  | .cons (some name) value rest, fields, found, filled, hd, hs, hfound, h => by
    rw [Members.fill] at h
    split at h
    · exact Members.Finite.fill hd.2 hs hfound (eq_ok_of_guarded h)
    · rename_i f hf
      have hsettled := hs f (List.mem_of_find?_eq_some hf)
      have hnext : ∃ v, v.Finite ∧ rest.fill strictness fields ((name, v) :: found)
          = .ok filled := by
        replace h := eq_ok_of_guarded h
        split at h
        · exact ⟨.null, finite_null, h⟩
        · obtain ⟨v, hv, h⟩ := bind_eq_ok_iff.1 h
          exact ⟨v, Draft.Finite.conform hd.1 hsettled.shape hv, h⟩
      obtain ⟨v, hv, h⟩ := hnext
      exact Members.Finite.fill hd.2 hs (List.forall_mem_cons.2 ⟨hv, hfound⟩) h

end

theorem Shape.finite_of_read {shape : Shape} (hs : shape.Settled) {text : String} {v : Json}
    (h : shape.read text = .ok v) : v.Finite := by
  obtain ⟨value, hvalue, h⟩ := bind_eq_ok_iff.1 h
  have hfinite := (scan_finite text.toList).conform hs hvalue
  split at h
  · obtain rfl := Except.ok.inj h
    exact hfinite
  · cases h

end Conform

end PitFleet.Json
