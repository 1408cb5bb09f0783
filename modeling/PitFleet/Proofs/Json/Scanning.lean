import Mathlib.Data.List.DropRight
import PitFleet.Json.Scan
import PitFleet.Proofs.Json.Doubles
import PitFleet.Proofs.Json.Quoting

/-!
# The text of a value is scanned back

`draft` is what the text of a value is read as, written on one line or on many. That it is goes by
the constructors: leaves are read by their first character (`scansBack_integer` and the others),
arrays and objects are scanned back when all that they hold is (`scansBack_array`,
`scansBack_object`).
-/

namespace PitFleet.Json

mutual

/-- What the text of a value is read as; of a finite double it is a numeral, and what is no finite
number is written as null. -/
def draft : Json → Draft
  | null => .null
  | bool b => .bool b
  | integer n => .number (some (.integer n))
  | real x => if x.isFinite then .number (textNumber x) else .null
  | string s => .string (some s)
  | array items => .array (draftItems items)
  | object members => .object (draftMembers members)

def draftItems : List Json → Items
  | [] => .closed
  | item :: items => .cons item.draft (draftItems items)

def draftMembers : List (String × Json) → Members
  | [] => .closed
  | (key, value) :: members => .cons (some key) value.draft (draftMembers members)

end

/-- The text of a value is read as its draft in front of anything that does not continue it. -/
def ScansBack (v : Json) : Prop :=
  ∀ style depth fuel rest, 2 * (v.write style depth).length ≤ fuel → EndsNumeral rest →
    scanValue fuel (v.write style depth ++ rest) = (v.draft, some rest)

section Blanks

theorem skipBlanks_cons_of_not_isBlank {c : Char} (cs : List Char) (h : isBlank c = false) :
    skipBlanks (c :: cs) = c :: cs :=
  List.dropWhile_cons_of_neg (by simp [h])

theorem skipBlanks_gap (style : Style) (depth : ℕ) (cs : List Char) :
    skipBlanks (style.gap depth ++ cs) = skipBlanks cs := by
  refine List.dropWhile_append_of_pos fun c hc => ?_
  cases style with
  | compact => cases hc
  | indented =>
    rcases List.mem_cons.1 hc with rfl | hc
    · rfl
    · rw [List.eq_of_mem_replicate hc]
      rfl

theorem skipBlanks_skipBlanks (cs : List Char) : skipBlanks (skipBlanks cs) = skipBlanks cs :=
  List.dropWhile_idempotent ..

theorem scanValue_skipBlanks (fuel : ℕ) (cs : List Char) :
    scanValue fuel (skipBlanks cs) = scanValue fuel cs := by
  cases fuel with
  | zero => rfl
  | succ fuel => rw [scanValue, scanValue, skipBlanks_skipBlanks]

theorem scanItems_skipBlanks (fuel : ℕ) (cs : List Char) :
    scanItems fuel (skipBlanks cs) = scanItems fuel cs := by
  cases fuel with
  | zero => rfl
  | succ fuel => rw [scanItems, scanItems, scanValue_skipBlanks]

theorem scanMembers_skipBlanks (fuel : ℕ) (cs : List Char) :
    scanMembers fuel (skipBlanks cs) = scanMembers fuel cs := by
  cases fuel with
  | zero => rfl
  | succ fuel => rw [scanMembers, scanMembers, skipBlanks_skipBlanks]

end Blanks

section Leaves

theorem scanValue_of_numeral {cs rest : List Char} {n : Option Number} (fuel : ℕ)
    (h : numeral cs = .ok (n, [])) (hrest : EndsNumeral rest) :
    scanValue (fuel + 1) (cs ++ rest) = (.number n, some rest) := by
  obtain ⟨c, cs, rfl, hc⟩ := exists_cons_of_numeral h
  have happend := numeral_append hrest h
  rw [List.cons_append, List.nil_append] at happend
  -- Neither a blank nor the first letter of anything else.
  have hne : ∀ d, d.isDigit = false → d ≠ '-' → c ≠ d := by
    rintro d hd hminus rfl
    rcases hc with hc | hc
    · exact hminus hc
    · rw [hd] at hc
      cases hc
  have hblank : isBlank c = false := by
    simp [isBlank, hne]
  rw [List.cons_append, scanValue, skipBlanks_cons_of_not_isBlank _ hblank]
  simp [hne, hc, happend]

/-- A leaf is read at once, however much fuel is left. -/
theorem scansBack_of_leaf {v : Json} {cs : List Char}
    (hcs : ∀ style depth, v.write style depth = cs)
    (h : ∀ fuel rest, EndsNumeral rest → scanValue (fuel + 1) (cs ++ rest) = (v.draft, some rest)) :
    ScansBack v := by
  intro style depth fuel rest hfuel hrest
  rw [hcs] at hfuel ⊢
  have hne : cs ≠ [] := by
    rintro rfl
    have hend := congrArg Prod.snd (h 0 [] nofun)
    cases hend
  have hpos := List.length_pos_of_ne_nil hne
  obtain ⟨n, rfl⟩ := Nat.exists_eq_succ_of_ne_zero (show fuel ≠ 0 by omega)
  exact h n rest hrest

theorem scansBack_null : ScansBack .null :=
  scansBack_of_leaf (fun _ _ => rfl) fun _ _ _ => rfl

theorem scansBack_bool (b : Bool) : ScansBack (.bool b) := by
  cases b
  · exact scansBack_of_leaf (fun _ _ => rfl) fun _ _ _ => rfl
  · exact scansBack_of_leaf (fun _ _ => rfl) fun _ _ _ => rfl

theorem scansBack_integer {n : ℤ} (h : Int64.minValue.toInt ≤ n ∧ n < UInt64.size) :
    ScansBack (.integer n) :=
  scansBack_of_leaf (fun _ _ => rfl) fun fuel _ hrest =>
    scanValue_of_numeral fuel (numeral_integer h) hrest

theorem scansBack_real (x : Float) : ScansBack (.real x) := by
  by_cases hx : x.isFinite = true
  · refine scansBack_of_leaf (fun _ _ => rfl) fun fuel rest hrest => ?_
    rw [draft, if_pos hx]
    exact scanValue_of_numeral fuel (numeral_write hx) hrest
  · have hnull : (NumberStyle.json.write x).toList = ['n', 'u', 'l', 'l'] := by
      rw [NumberStyle.write_json_of_not_isFinite (Bool.not_eq_true _ ▸ hx)]
      rfl
    refine scansBack_of_leaf (fun _ _ => hnull) fun fuel rest hrest => ?_
    rw [draft, if_neg hx]
    rfl

theorem scansBack_string (s : String) : ScansBack (.string s) := by
  have hleaf : ∀ style depth, (string s).write style depth = quote s := fun _ _ => rfl
  refine scansBack_of_leaf hleaf fun fuel rest _ => ?_
  have hquote : quote s ++ rest = '"' :: (s.toList.flatMap escape ++ '"' :: rest) := by
    simp [quote]
  rw [hquote, scanValue, skipBlanks_cons_of_not_isBlank _ rfl]
  simp only [quoted_quote]
  rfl

end Leaves

section Brackets

theorem endsNumeral_gap {style : Style} {depth : ℕ} {cs : List Char} (h : EndsNumeral cs) :
    EndsNumeral (style.gap depth ++ cs) := by
  cases style with
  | compact => exact h
  | indented =>
    intro c hc
    cases hc
    decide

theorem endsNumeral_writeItems (style : Style) (depth : ℕ) (items : List Json) (rest : List Char) :
    EndsNumeral (writeItems style depth items ++ rest) := by
  cases items with
  | nil =>
    rw [writeItems, List.append_assoc]
    refine endsNumeral_gap fun c hc => ?_
    cases hc
    decide
  | cons item items =>
    intro c hc
    simp only [writeItems] at hc
    cases hc
    decide

theorem scanItems_write {style : Style} {depth : ℕ} {rest : List Char} (item : Json)
    (items : List Json) (fuel : ℕ) (hitem : ScansBack item) (hitems : ∀ v ∈ items, ScansBack v)
    (hfuel : 2 * (item.write style (depth + 1) ++ writeItems style depth items).length ≤ fuel) :
    scanItems fuel (item.write style (depth + 1) ++ (writeItems style depth items ++ rest))
      = (draftItems (item :: items), some rest) := by
  induction items generalizing item fuel with
  | nil =>
    simp only [writeItems, List.length_append, List.length_singleton] at hfuel
    obtain ⟨n, rfl⟩ := Nat.exists_eq_succ_of_ne_zero (show fuel ≠ 0 by omega)
    have hscan := hitem style (depth + 1) n _ (by omega)
      (endsNumeral_writeItems style depth [] rest)
    have hclose : skipBlanks (writeItems style depth [] ++ rest) = ']' :: rest := by
      rw [writeItems, List.append_assoc, skipBlanks_gap]
      rfl
    rw [scanItems, hscan]
    simp only [hclose]
    rfl
  | cons next items ih =>
    simp only [writeItems, List.length_append, List.length_cons] at hfuel
    obtain ⟨n, rfl⟩ := Nat.exists_eq_succ_of_ne_zero (show fuel ≠ 0 by omega)
    have hscan := hitem style (depth + 1) n _ (by omega)
      (endsNumeral_writeItems style depth (next :: items) rest)
    have hcomma : skipBlanks (writeItems style depth (next :: items) ++ rest)
        = ',' :: (style.gap (depth + 1)
          ++ (next.write style (depth + 1) ++ (writeItems style depth items ++ rest))) := by
      simp only [writeItems, List.append_assoc, List.cons_append]
      exact skipBlanks_cons_of_not_isBlank _ rfl
    have hrest := ih next n (hitems next List.mem_cons_self)
      (fun v hv => hitems v (List.mem_cons_of_mem next hv)) (by rw [List.length_append]; omega)
    rw [scanItems, hscan]
    simp only [hcomma]
    rw [← scanItems_skipBlanks, skipBlanks_gap, scanItems_skipBlanks, hrest]
    rfl

theorem scanItems_closing (fuel : ℕ) (cs : List Char) :
    (scanItems fuel (']' :: cs)).2 = none := by
  rcases fuel with _ | _ | fuel <;> rfl

theorem scansBack_array {items : List Json} (h : ∀ v ∈ items, ScansBack v) :
    ScansBack (.array items) := by
  intro style depth fuel rest hfuel _
  cases items with
  | nil =>
    simp only [write, List.length_cons] at hfuel
    obtain ⟨n, rfl⟩ := Nat.exists_eq_succ_of_ne_zero (show fuel ≠ 0 by omega)
    rfl
  | cons item items =>
    simp only [write, List.length_append, List.length_cons] at hfuel
    obtain ⟨n, rfl⟩ := Nat.exists_eq_succ_of_ne_zero (show fuel ≠ 0 by omega)
    have hscan : scanItems n
          (item.write style (depth + 1) ++ (writeItems style depth items ++ rest))
        = (draftItems (item :: items), some rest) :=
      scanItems_write item items n (h item List.mem_cons_self)
        (fun v hv => h v (List.mem_cons_of_mem item hv)) (by rw [List.length_append]; omega)
    simp only [write, List.append_assoc, List.cons_append]
    rw [← scanItems_skipBlanks] at hscan
    rw [scanValue, skipBlanks_cons_of_not_isBlank _ rfl]
    simp only [skipBlanks_gap]
    split
    · rename_i cs' hclose
      rw [hclose] at hscan
      have hend := congrArg Prod.snd hscan
      rw [scanItems_closing] at hend
      cases hend
    · rw [hscan]
      rfl

theorem endsNumeral_writeMembers (style : Style) (depth : ℕ) (members : List (String × Json))
    (rest : List Char) : EndsNumeral (writeMembers style depth members ++ rest) := by
  cases members with
  | nil =>
    rw [writeMembers, List.append_assoc]
    refine endsNumeral_gap fun c hc => ?_
    cases hc
    decide
  | cons m members =>
    intro c hc
    simp only [writeMembers] at hc
    cases hc
    decide

/-- A key with its value. -/
def writeMember (style : Style) (depth : ℕ) (m : String × Json) : List Char :=
  quote m.1 ++ style.colon ++ m.2.write style (depth + 1)

theorem exists_colon (style : Style) (cs : List Char) :
    ∃ cs', skipBlanks (style.colon ++ cs) = ':' :: cs' ∧ skipBlanks cs' = skipBlanks cs := by
  cases style with
  | compact => exact ⟨cs, rfl, rfl⟩
  | indented => exact ⟨' ' :: cs, rfl, rfl⟩

theorem writeMember_append (style : Style) (depth : ℕ) (m : String × Json) (tail : List Char) :
    writeMember style depth m ++ tail = '"' :: (m.1.toList.flatMap escape
      ++ '"' :: (style.colon ++ (m.2.write style (depth + 1) ++ tail))) := by
  simp [writeMember, quote]

/-- How the scan of members goes on behind one of them. -/
def scanBehind (n : ℕ) (tail : List Char) : Members × Option (List Char) :=
  match skipBlanks tail with
  | ',' :: cs => scanMembers n cs
  | '}' :: cs => (.closed, some cs)
  | [] => (.broken .truncated, none)
  | _ => (.broken .malformed, none)

theorem scanMembers_writeMember {style : Style} {depth n : ℕ} {m : String × Json} {tail : List Char}
    (hm : ScansBack m.2) (hfuel : 2 * (m.2.write style (depth + 1)).length ≤ n)
    (htail : EndsNumeral tail) :
    scanMembers (n + 1) (writeMember style depth m ++ tail)
      = (.cons (some m.1) m.2.draft (scanBehind n tail).1, (scanBehind n tail).2) := by
  obtain ⟨cs, hcolon, hcs⟩ := exists_colon style (m.2.write style (depth + 1) ++ tail)
  have hscan : scanValue n cs = (m.2.draft, some tail) := by
    rw [← scanValue_skipBlanks, hcs, scanValue_skipBlanks]
    exact hm style (depth + 1) n tail hfuel htail
  rw [writeMember_append, scanMembers, skipBlanks_cons_of_not_isBlank _ rfl]
  simp only [quoted_quote, hcolon, hscan]
  rfl

theorem scanMembers_write {style : Style} {depth : ℕ} {rest : List Char} (m : String × Json)
    (members : List (String × Json)) (fuel : ℕ) (hm : ScansBack m.2)
    (hmembers : ∀ n ∈ members, ScansBack n.2)
    (hfuel : 2 * (writeMember style depth m ++ writeMembers style depth members).length ≤ fuel) :
    scanMembers fuel (writeMember style depth m ++ (writeMembers style depth members ++ rest))
      = (draftMembers (m :: members), some rest) := by
  induction members generalizing m fuel with
  | nil =>
    simp only [writeMember, writeMembers, List.length_append, List.length_singleton] at hfuel
    obtain ⟨n, rfl⟩ := Nat.exists_eq_succ_of_ne_zero (show fuel ≠ 0 by omega)
    have hclose : skipBlanks (writeMembers style depth [] ++ rest) = '}' :: rest := by
      rw [writeMembers, List.append_assoc, skipBlanks_gap]
      rfl
    rw [scanMembers_writeMember hm (by omega) (endsNumeral_writeMembers style depth [] rest),
      scanBehind]
    simp only [hclose]
    rfl
  | cons next members ih =>
    simp only [writeMember, writeMembers, List.length_append, List.length_cons] at hfuel
    obtain ⟨n, rfl⟩ := Nat.exists_eq_succ_of_ne_zero (show fuel ≠ 0 by omega)
    have hcomma : skipBlanks (writeMembers style depth (next :: members) ++ rest)
        = ',' :: (style.gap (depth + 1)
          ++ (writeMember style depth next ++ (writeMembers style depth members ++ rest))) := by
      simp only [writeMember, writeMembers, List.append_assoc, List.cons_append]
      exact skipBlanks_cons_of_not_isBlank _ rfl
    have hrest := ih next n (hmembers next List.mem_cons_self)
      (fun v hv => hmembers v (List.mem_cons_of_mem next hv)) (by
        simp only [writeMember, List.length_append]
        omega)
    rw [scanMembers_writeMember hm (by omega)
      (endsNumeral_writeMembers style depth (next :: members) rest), scanBehind]
    simp only [hcomma]
    rw [← scanMembers_skipBlanks, skipBlanks_gap, scanMembers_skipBlanks, hrest]
    rfl

theorem scansBack_object {members : List (String × Json)} (h : ∀ m ∈ members, ScansBack m.2) :
    ScansBack (.object members) := by
  intro style depth fuel rest hfuel _
  cases members with
  | nil =>
    simp only [write, List.length_cons] at hfuel
    obtain ⟨n, rfl⟩ := Nat.exists_eq_succ_of_ne_zero (show fuel ≠ 0 by omega)
    rfl
  | cons m members =>
    simp only [write, List.length_append, List.length_cons] at hfuel
    obtain ⟨n, rfl⟩ := Nat.exists_eq_succ_of_ne_zero (show fuel ≠ 0 by omega)
    have hscan : scanMembers n
          (writeMember style depth m ++ (writeMembers style depth members ++ rest))
        = (draftMembers (m :: members), some rest) :=
      scanMembers_write m members n (h m List.mem_cons_self)
        (fun v hv => h v (List.mem_cons_of_mem m hv)) (by
          simp only [writeMember, List.length_append]
          omega)
    rw [← scanMembers_skipBlanks] at hscan
    have htext : write style depth (object (m :: members)) ++ rest
        = '{' :: (style.gap (depth + 1)
          ++ (writeMember style depth m ++ (writeMembers style depth members ++ rest))) := by
      simp only [writeMember, write, List.append_assoc, List.cons_append]
    rw [htext, scanValue, skipBlanks_cons_of_not_isBlank _ rfl]
    simp only [skipBlanks_gap]
    split
    · rename_i cs' hclose
      rw [writeMember_append, skipBlanks_cons_of_not_isBlank _ rfl] at hclose
      cases hclose
    · rw [hscan]
      rfl

end Brackets

theorem scan_write {v : Json} (h : ScansBack v) (style : Style) :
    scan (v.write style 0) = (v.draft, some []) := by
  have hscan := h style 0 (2 * (v.write style 0).length + 1) [] (by omega) nofun
  rwa [List.append_nil] at hscan

end PitFleet.Json
