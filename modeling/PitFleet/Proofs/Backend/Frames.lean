import Mathlib.Order.Bounds.Basic
import Mathlib.Tactic.Common
import PitFleet.Backend.Frame

/-!
# Streams of frames

A header gives back the length that it was made of and the other way round (`announced_header`,
`header_announced`). So a stream splits in one way only into whole frames and a remainder in which
no frame can be read, and `readAll` finds this split (`readAll_eq_iff`). A stream that is cut
anywhere loses the frames behind the cut and no other (`readAll_prefix`).
-/

namespace PitFleet.Frame

/-- The frames of several payloads one after the other, unless a length does not fit. -/
def writeAll? (payloads : List (List UInt8)) : Option (List UInt8) :=
  (payloads.mapM write?).map List.flatten

/-- The bytes of a frame whose length fits. -/
def bytes (payload : List UInt8) : List UInt8 :=
  header payload.length ++ payload

def stream (payloads : List (List UInt8)) : List UInt8 :=
  payloads.flatMap bytes

/-- Whether no frame can be read at the start of a stream, why, and what stays unread. -/
inductive Remainder : List UInt8 → Fault → List UInt8 → Prop
  | header {rest : List UInt8} (h : rest.length < 4) : Remainder rest .cut []
  | payload {a b c d : UInt8} {rest : List UInt8} (h : announced a b c d ≤ maxLength)
    (h' : rest.length < announced a b c d) : Remainder (a :: b :: c :: d :: rest) .cut []
  | refused {a b c d : UInt8} {rest : List UInt8} (h : maxLength < announced a b c d) :
    Remainder (a :: b :: c :: d :: rest) (.tooLong (announced a b c d)) rest

section Header

theorem header_announced (a b c d : UInt8) : header (announced a b c d) = [a, b, c, d] := by
  have ha := a.toNat_lt
  have hb := b.toNat_lt
  have hc := c.toNat_lt
  have hd := d.toNat_lt
  unfold header announced
  simp only [List.cons.injEq, and_true, ← UInt8.toNat_inj, UInt8.toNat_ofNat']
  omega

theorem announced_header {n : ℕ} (hn : n < lengthLimit) :
    announced (.ofNat (n / 0x1000000)) (.ofNat (n / 0x10000)) (.ofNat (n / 0x100)) (.ofNat n)
      = n := by
  have hlimit : lengthLimit = 4294967296 := rfl
  simp only [announced, UInt8.toNat_ofNat']
  omega

theorem maxLength_lt_lengthLimit : maxLength < lengthLimit := by
  decide

end Header

section Write

theorem length_bytes (p : List UInt8) : (bytes p).length = 4 + p.length := by
  rw [bytes, List.length_append]
  rfl

theorem write?_eq_some {p : List UInt8} (h : p.length < lengthLimit) : write? p = some (bytes p) :=
  if_pos h

theorem writeAll?_eq_some : ∀ {payloads : List (List UInt8)},
    (∀ p ∈ payloads, p.length < lengthLimit) → writeAll? payloads = some (stream payloads)
  | [], _ => rfl
  | p :: payloads, h => by
    have hp := write?_eq_some (h p List.mem_cons_self)
    have ih := writeAll?_eq_some fun q hq => h q (List.mem_cons_of_mem p hq)
    simp only [writeAll?, Option.map_eq_some_iff] at ih ⊢
    obtain ⟨frames, hframes, hflat⟩ := ih
    refine ⟨bytes p :: frames, ?_, ?_⟩
    · simp [List.mapM_cons, hp, hframes]
    · simp [hflat, stream]

end Write

section Read

theorem read_bytes {p : List UInt8} (h : p.length ≤ maxLength) (rest : List UInt8) :
    read (bytes p ++ rest) = .payload p rest := by
  have hlen := announced_header (h.trans_lt maxLength_lt_lengthLimit)
  simp only [bytes, header, List.cons_append, List.nil_append, read, hlen]
  rw [if_neg (Nat.not_lt.2 h), if_neg (by simp), List.take_left, List.drop_left]

/-- What is read as a payload stands there as its frame. -/
theorem eq_bytes_of_read {s p rest : List UInt8} (h : read s = .payload p rest) :
    p.length ≤ maxLength ∧ s = bytes p ++ rest := by
  unfold read at h
  split at h
  · rename_i a b c d stream
    simp only at h
    split_ifs at h with hmax hlen
    cases h
    have hp : (stream.take (announced a b c d)).length = announced a b c d :=
      List.length_take_of_le (Nat.not_lt.1 hlen)
    refine ⟨hp.trans_le (Nat.not_lt.1 hmax), ?_⟩
    rw [bytes, hp, header_announced, List.append_assoc, List.take_append_drop]
    rfl
  · cases h

theorem read_eq_failed_iff {s left : List UInt8} {fault : Fault} :
    read s = .failed fault left ↔ Remainder s fault left := by
  constructor
  · intro h
    unfold read at h
    split at h
    · simp only at h
      split_ifs at h with hmax hlen <;> cases h
      · exact .refused hmax
      · exact .payload (Nat.not_lt.1 hmax) hlen
    · rename_i hshort
      cases h
      refine .header (Nat.lt_of_not_le fun hc => ?_)
      match s, hc with
      | a :: b :: c :: d :: stream, _ => exact hshort a b c d stream rfl
  · rintro (h | ⟨h, h'⟩ | h)
    · match s, h with
      | [], _ | [_], _ | [_, _], _ | [_, _, _], _ => rfl
    · simp only [read]
      rw [if_neg (Nat.not_lt.2 h), if_pos h']
    · simp only [read]
      rw [if_pos h]

theorem readAll_of_failed {s left : List UInt8} {fault : Fault} (h : read s = .failed fault left) :
    readAll s = ([], fault, left) := by
  rw [readAll]
  split <;> simp_all

theorem readAll_of_payload {s p rest : List UInt8} (h : read s = .payload p rest) :
    readAll s = (p :: (readAll rest).1, (readAll rest).2) := by
  rw [readAll]
  split <;> simp_all

/-- Whole frames are read one by one, whatever follows them. -/
theorem readAll_stream_append : ∀ {payloads : List (List UInt8)} (rest : List UInt8),
    (∀ p ∈ payloads, p.length ≤ maxLength) →
      readAll (stream payloads ++ rest) = (payloads ++ (readAll rest).1, (readAll rest).2)
  | [], _, _ => rfl
  | p :: payloads, rest, h => by
    have ih := readAll_stream_append rest fun q hq => h q (List.mem_cons_of_mem p hq)
    have hp := read_bytes (h p List.mem_cons_self) (stream payloads ++ rest)
    rw [stream, List.flatMap_cons, List.append_assoc, ← stream, readAll_of_payload hp, ih]
    rfl

/-- Reading ends with these payloads and this fault exactly if the stream is their frames and such a
remainder. -/
theorem readAll_eq_iff {s left : List UInt8} {payloads : List (List UInt8)} {fault : Fault} :
    readAll s = (payloads, fault, left) ↔ ∃ rest, (∀ p ∈ payloads, p.length ≤ maxLength)
      ∧ s = stream payloads ++ rest ∧ Remainder rest fault left := by
  constructor
  · intro h
    induction payloads generalizing s with
    | nil =>
      rcases hread : read s with ⟨p, rest⟩ | ⟨fault', left'⟩
      · rw [readAll_of_payload hread] at h
        cases h
      · rw [readAll_of_failed hread] at h
        cases h
        exact ⟨s, by simp, rfl, read_eq_failed_iff.1 hread⟩
    | cons q payloads ih =>
      rcases hread : read s with ⟨p, rest⟩ | ⟨fault', left'⟩
      · rw [readAll_of_payload hread, Prod.mk.injEq, List.cons.injEq] at h
        obtain ⟨⟨rfl, hpayloads⟩, hend⟩ := h
        obtain ⟨hp, rfl⟩ := eq_bytes_of_read hread
        obtain ⟨rest', hall, rfl, hrest⟩ := ih (Prod.ext hpayloads hend)
        refine ⟨rest', ?_, ?_, hrest⟩
        · exact List.forall_mem_cons.2 ⟨hp, hall⟩
        · simp [stream]
      · rw [readAll_of_failed hread] at h
        cases h
  · rintro ⟨rest, hall, rfl, hrest⟩
    rw [readAll_stream_append rest hall, readAll_of_failed (read_eq_failed_iff.2 hrest),
      List.append_nil]

end Read

section Split

/-- A stream as the frames of some payloads that a reader takes and a rest. -/
structure Split (s : List UInt8) (payloads : List (List UInt8)) (rest : List UInt8) : Prop where
  within : ∀ p ∈ payloads, p.length ≤ maxLength
  frames : ∃ whole, writeAll? payloads = some whole ∧ s = whole ++ rest

theorem split_iff {s rest : List UInt8} {payloads : List (List UInt8)} :
    Split s payloads rest
      ↔ (∀ p ∈ payloads, p.length ≤ maxLength) ∧ s = stream payloads ++ rest := by
  have hfits (h : ∀ p ∈ payloads, p.length ≤ maxLength) :
      writeAll? payloads = some (stream payloads) :=
    writeAll?_eq_some fun p hp => (h p hp).trans_lt maxLength_lt_lengthLimit
  constructor
  · rintro ⟨hall, whole, hwhole, hs⟩
    rw [hfits hall] at hwhole
    exact ⟨hall, Option.some.inj hwhole ▸ hs⟩
  · rintro ⟨hall, hs⟩
    exact ⟨hall, _, hfits hall, hs⟩

theorem length_stream_ge : ∀ payloads : List (List UInt8),
    4 * payloads.length ≤ (stream payloads).length
  | [] => Nat.le_refl 0
  | p :: payloads => by
    have ih := length_stream_ge payloads
    rw [stream, List.flatMap_cons, List.length_append, length_bytes, List.length_cons, ← stream]
    omega

/-- Every stream has one reading: whole frames and a remainder in which there is none, whose kind
tells how the reading ends and what it leaves. -/
theorem readAll_split (s : List UInt8) : ∃ rest, Split s (readAll s).1 rest
    ∧ Remainder rest (readAll s).2.1 (readAll s).2.2
    ∧ 4 * (readAll s).1.length ≤ s.length
    ∧ ∀ payloads rest' fault left, Split s payloads rest' → Remainder rest' fault left →
      payloads = (readAll s).1 ∧ rest' = rest ∧ (fault, left) = (readAll s).2 := by
  obtain ⟨rest, hall, hs, hrest⟩ := readAll_eq_iff.1 (Eq.refl (readAll s))
  refine ⟨rest, split_iff.2 ⟨hall, hs⟩, hrest, ?_,
    fun payloads rest' fault left hsplit hrest' => ?_⟩
  · have hle := length_stream_ge (readAll s).1
    have hlength := congrArg List.length hs
    rw [List.length_append] at hlength
    omega
  · obtain ⟨hall', hs'⟩ := split_iff.1 hsplit
    have hread := readAll_eq_iff.2 ⟨rest', hall', hs', hrest'⟩
    rw [hread] at hs ⊢
    exact ⟨rfl, List.append_cancel_left (hs'.symm.trans hs), rfl⟩

end Split

section Cut

/-- The first `i` payloads are ones that a reader takes and their frames lie within a stream so
long. -/
def Whole (payloads : List (List UInt8)) (length i : ℕ) : Prop :=
  (∀ p ∈ payloads.take i, p.length ≤ maxLength) ∧ (stream (payloads.take i)).length ≤ length

/-- How the reading of a stream so long ends after `i` payloads: the next header may stand there
whole and announce too much. -/
def faultAfter (payloads : List (List UInt8)) (length i : ℕ) : Fault :=
  match payloads[i]? with
  | none => .cut
  | some p =>
    if maxLength < p.length ∧ (stream (payloads.take i)).length + 4 ≤ length then
      .tooLong p.length
    else .cut

theorem exists_of_prefix_append {pre front back : List UInt8} (h : pre <+: front ++ back)
    (hlen : front.length ≤ pre.length) : ∃ rest, pre = front ++ rest ∧ rest <+: back := by
  obtain ⟨rest, rfl⟩ := List.prefix_of_prefix_length_le (List.prefix_append front back) h hlen
  exact ⟨rest, rfl, (List.prefix_append_right_inj front).1 h⟩

theorem stream_cons (p : List UInt8) (payloads : List (List UInt8)) :
    stream (p :: payloads) = bytes p ++ stream payloads :=
  List.flatMap_cons

theorem faultAfter_succ (p : List UInt8) (payloads : List (List UInt8)) (length i : ℕ) :
    faultAfter (p :: payloads) ((bytes p).length + length) (i + 1)
      = faultAfter payloads length i := by
  simp only [faultAfter, List.getElem?_cons_succ, List.take_succ_cons, stream_cons,
    List.length_append, Nat.add_assoc, Nat.add_le_add_iff_left]

/-- A stream that is cut within its first frame, or refused at its first header. -/
theorem remainder_of_cut {p : List UInt8} {payloads : List (List UInt8)} {pre : List UInt8}
    (hp : p.length < lengthLimit) (hpre : pre <+: bytes p ++ stream payloads)
    (hcut : maxLength < p.length ∨ pre.length < (bytes p).length) :
    ∃ left, Remainder pre (faultAfter (p :: payloads) pre.length 0) left := by
  have hfault : faultAfter (p :: payloads) pre.length 0
      = if maxLength < p.length ∧ 4 ≤ pre.length then .tooLong p.length else .cut := by
    simp [faultAfter, stream]
  rw [hfault]
  by_cases hheader : pre.length < 4
  · rw [if_neg (by omega)]
    exact ⟨[], .header hheader⟩
  rw [bytes, List.append_assoc] at hpre
  obtain ⟨rest, rfl, -⟩ := exists_of_prefix_append hpre (Nat.not_lt.1 hheader)
  have hannounced := announced_header hp
  by_cases hmax : maxLength < p.length
  · rw [if_pos ⟨hmax, Nat.not_lt.1 hheader⟩]
    refine ⟨rest, ?_⟩
    have hrefused := @Remainder.refused _ _ _ _ rest (hannounced ▸ hmax)
    rwa [hannounced] at hrefused
  · rw [if_neg (by omega)]
    have hshort := hcut.resolve_left hmax
    rw [bytes, List.length_append, List.length_append] at hshort
    refine ⟨[], .payload ?_ ?_⟩
    · rw [hannounced]
      exact Nat.not_lt.1 hmax
    · rw [hannounced]
      exact Nat.lt_of_add_lt_add_left hshort

theorem exists_cut : ∀ {payloads : List (List UInt8)} {pre : List UInt8},
    (∀ p ∈ payloads, p.length < lengthLimit) → pre <+: stream payloads →
      ∃ j rest left, j ≤ payloads.length ∧ (∀ p ∈ payloads.take j, p.length ≤ maxLength)
        ∧ pre = stream (payloads.take j) ++ rest
        ∧ Remainder rest (faultAfter payloads pre.length j) left
  | [], pre, _, hpre => by
    obtain rfl := List.prefix_nil.1 hpre
    exact ⟨0, [], [], Nat.le_refl 0, by simp, rfl, .header (by simp)⟩
  | p :: payloads, pre, h, hpre => by
    rw [stream_cons] at hpre
    by_cases hcut : maxLength < p.length ∨ pre.length < (bytes p).length
    · obtain ⟨left, hleft⟩ := remainder_of_cut (h p List.mem_cons_self) hpre hcut
      exact ⟨0, pre, left, Nat.zero_le _, by simp, rfl, hleft⟩
    · rw [not_or] at hcut
      obtain ⟨pre, rfl, hpre'⟩ := exists_of_prefix_append hpre (Nat.not_lt.1 hcut.2)
      obtain ⟨j, rest, left, hj, hall, rfl, hleft⟩ :=
        exists_cut (fun q hq => h q (List.mem_cons_of_mem p hq)) hpre'
      refine ⟨j + 1, rest, left, Nat.succ_le_succ hj, ?_, ?_, ?_⟩
      · exact List.forall_mem_cons.2 ⟨Nat.not_lt.1 hcut.1, hall⟩
      · rw [List.take_succ_cons, stream_cons, List.append_assoc]
      · rwa [List.length_append, faultAfter_succ]

/-- However a stream of frames is cut, the payloads before the cut are read, up to the first one
that is too long, and none besides. -/
theorem readAll_prefix {payloads : List (List UInt8)}
    (h : ∀ p ∈ payloads, p.length < lengthLimit) : ∃ s, writeAll? payloads = some s
      ∧ (∀ pre, pre <+: s →
        ∃ j, IsGreatest {i | i ≤ payloads.length ∧ Whole payloads pre.length i} j
          ∧ (readAll pre).1 = payloads.take j
          ∧ (readAll pre).2.1 = faultAfter payloads pre.length j)
      ∧ ((∀ p ∈ payloads, p.length ≤ maxLength) → readAll s = (payloads, .cut, [])) := by
  refine ⟨stream payloads, writeAll?_eq_some h, fun pre hpre => ?_, fun hall => ?_⟩
  · obtain ⟨j, rest, left, hj, hall, hs, hrest⟩ := exists_cut h hpre
    have hread := readAll_eq_iff.2 ⟨rest, hall, hs, hrest⟩
    refine ⟨j, ⟨⟨hj, hall, ?_⟩, ?_⟩, by rw [hread], by rw [hread]⟩
    · rw [hs, List.length_append]
      omega
    · -- The first `i` payloads are read from `pre`, and no more than `j` are.
      rintro i ⟨hi, hall', hlength⟩
      have hfront : stream (payloads.take i) <+: stream payloads := by
        conv_rhs => rw [← List.take_append_drop i payloads]
        rw [stream, stream, List.flatMap_append]
        exact List.prefix_append _ _
      obtain ⟨rest', rfl⟩ := List.prefix_of_prefix_length_le hfront hpre hlength
      have htake := congrArg (fun r => r.1.length) (readAll_stream_append rest' hall')
      simp only [hread, List.length_append, List.length_take] at htake
      omega
  · have hread := readAll_eq_iff.2 ⟨[], hall, (List.append_nil _).symm, .header (by simp)⟩
    exact hread

/-- An empty payload between two others, of which the last is one byte too long for a reader. -/
def payloadsUpToRefused : List (List UInt8) :=
  [[7], [], List.replicate (maxLength + 1) 0]

theorem readAll_prefix_upToRefused : (∀ p ∈ payloadsUpToRefused, p.length < lengthLimit)
    ∧ ∃ s, writeAll? payloadsUpToRefused = some s ∧ ∀ pre, pre <+: s →
      ∃ j, IsGreatest {i | i ≤ 3 ∧ Whole payloadsUpToRefused pre.length i} j
        ∧ (readAll pre).1 = payloadsUpToRefused.take j
        ∧ (readAll pre).2.1 = faultAfter payloadsUpToRefused pre.length j := by
  have h : ∀ p ∈ payloadsUpToRefused, p.length < lengthLimit := by
    simp only [payloadsUpToRefused, List.forall_mem_cons, List.length_replicate]
    exact ⟨by decide, by decide, by decide, by simp⟩
  obtain ⟨s, hs, hcut, -⟩ := readAll_prefix h
  exact ⟨h, s, hs, hcut⟩

end Cut

end PitFleet.Frame
