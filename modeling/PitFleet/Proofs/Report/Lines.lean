import PitFleet.Proofs.Json.Printable
import PitFleet.Proofs.Simulation.Ticks
import PitFleet.Report.Console

/-!
# A report, a line

A console that writes JSON makes one line of every report. No line holds a newline byte of its own,
as a batch is written without control characters and no character but the newline is encoded with
that byte, so whoever splits the output at its newlines has the batches again (`deliver_json`).
-/

namespace PitFleet

section Bytes

/-- The bytes as which a text is written. -/
def utf8 (s : String) : List UInt8 :=
  s.toUTF8.data.toList

def newline : UInt8 := 10

theorem utf8_append (s t : String) : utf8 (s ++ t) = utf8 s ++ utf8 t := by
  simp [utf8, String.toByteArray_append, ByteArray.data_append]

theorem utf8_eq_flatMap (s : String) : utf8 s = s.toList.flatMap String.utf8EncodeChar := by
  obtain ⟨cs, rfl⟩ : ∃ cs, s = String.ofList cs := ⟨s.toList, (String.ofList_toList).symm⟩
  rw [utf8, String.toUTF8, String.toByteArray_ofList, String.toList_ofList, List.utf8Encode,
    List.data_toByteArray]

/-- A byte of a character that is not encoded as itself is 128 or more. -/
theorem eq_newline_of_mem {c : Char} (h : newline ∈ String.utf8EncodeChar c) : c = '\n' := by
  have hbyte {n : ℕ} (hlt : n < 256) (hn : newline = UInt8.ofNat n) : n = 10 := by
    have htoNat := congrArg UInt8.toNat hn
    rw [UInt8.toNat_ofNat_of_lt' hlt] at htoNat
    exact htoNat.symm
  have hhigh {n : ℕ} (hle : 128 ≤ n) (hlt : n < 256) : newline ≠ UInt8.ofNat n := fun hn => by
    have := hbyte hlt hn
    omega
  unfold String.utf8EncodeChar at h
  dsimp only at h
  split_ifs at h
  case pos =>
    rw [List.mem_singleton] at h
    exact Char.ext (UInt32.toNat_inj.1 (hbyte (by omega) h))
  all_goals
    simp only [List.mem_cons, List.not_mem_nil, or_false] at h
  · rcases h with h | h <;> exact absurd h (hhigh (by omega) (by omega))
  · rcases h with h | h | h <;> exact absurd h (hhigh (by omega) (by omega))
  · rcases h with h | h | h | h <;> exact absurd h (hhigh (by omega) (by omega))

theorem newline_notMem_utf8 {s : String} (h : '\n' ∉ s.toList) : newline ∉ utf8 s := by
  rw [utf8_eq_flatMap, List.mem_flatMap]
  rintro ⟨c, hc, hmem⟩
  exact h (eq_newline_of_mem hmem ▸ hc)

/-- Lines that hold no mark are found between the marks behind them. -/
theorem splitOn_lines {x : UInt8} {lines : List (List UInt8)} (h : ∀ l ∈ lines, x ∉ l) :
    (lines.flatMap (· ++ [x])).splitOn x = lines ++ [[]] := by
  have hjoin : [x].intercalate (lines ++ [[]]) = lines.flatMap (· ++ [x]) := by
    induction lines with
    | nil => rfl
    | cons l lines ih =>
      rw [List.cons_append, List.intercalate_cons_of_ne_nil (by simp), List.flatMap_cons,
        ih fun l hl => h l (List.mem_cons_of_mem _ hl)]
  rw [← hjoin]
  refine List.splitOn_intercalate x ?_ (by simp)
  rw [List.forall_mem_append, List.forall_mem_singleton]
  exact ⟨h, List.not_mem_nil⟩

theorem count_lines {x : UInt8} {lines : List (List UInt8)} (h : ∀ l ∈ lines, x ∉ l) :
    (lines.flatMap (· ++ [x])).count x = lines.length := by
  induction lines with
  | nil => rfl
  | cons l lines ih =>
    rw [List.forall_mem_cons] at h
    rw [List.flatMap_cons, List.count_append, List.count_append, List.count_eq_zero_of_not_mem h.1,
      ih h.2, List.count_singleton_self, List.length_cons]
    omega

end Bytes

theorem Batch.newline_notMem_encode (b : Batch) : newline ∉ utf8 b.encode := by
  refine newline_notMem_utf8 (Printable.newline_notMem ?_)
  rw [encode, Document.write, Json.render, String.toList_ofList]
  exact Json.printable_write 0 _

namespace Console

theorem takesAll (c : Console) : Sink.TakesAll c := by
  intro rs
  induction rs generalizing c with
  | nil => trivial
  | cons r rs ih => exact ⟨rfl, ih _⟩

theorem utf8_deliver (clears : Bool) (rs : List (Report Float)) :
    ∀ written : String, utf8 (Sink.deliver (⟨.json, clears, written⟩ : Console) rs).written
      = utf8 written ++ (rs.map fun r => utf8 r.batch.encode).flatMap (· ++ [newline]) := by
  induction rs with
  | nil => exact fun written => (List.append_nil _).symm
  | cons r rs ih =>
    intro written
    have hfirst : (Sink.emit (⟨.json, clears, written⟩ : Console) r).1
        = ⟨.json, clears, written ++ (r.batch.encode ++ "\n")⟩ := rfl
    show utf8 (Sink.deliver (Sink.emit (⟨.json, clears, written⟩ : Console) r).1 rs).written = _
    rw [hfirst, ih, utf8_append, utf8_append, List.map_cons, List.flatMap_cons, List.append_assoc]
    rfl

/-- A console that writes JSON takes all reports, whatever their ids are, and ends each of them with
the only newline of its line. Split at the newlines, the output is the batches in order and nothing
behind them. -/
theorem deliver_json (clears : Bool) (rs : List (Report Float)) :
    Sink.TakesAll (⟨.json, clears, ""⟩ : Console)
      ∧ ∃ output, utf8 (Sink.deliver (⟨.json, clears, ""⟩ : Console) rs).written = output
        ∧ output = rs.flatMap (fun r => utf8 r.batch.encode ++ [newline])
        ∧ output.count newline = rs.length
        ∧ output.splitOn newline = rs.map (fun r => utf8 r.batch.encode) ++ [[]] := by
  have hlines : ∀ l ∈ rs.map fun r => utf8 r.batch.encode, newline ∉ l :=
    List.forall_mem_map.2 fun r _ => r.batch.newline_notMem_encode
  refine ⟨takesAll _, _, utf8_deliver clears rs "", ?_, ?_, splitOn_lines hlines⟩
  · exact List.flatMap_map ..
  · exact (count_lines hlines).trans (List.length_map _)

end Console

end PitFleet
