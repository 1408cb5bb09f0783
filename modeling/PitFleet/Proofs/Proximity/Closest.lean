import PitFleet.Proofs.Scalar.Order
import PitFleet.Proximity.Approach

/-!
# What the walk finds

The walk takes the samples in order and stops at the first one that has diverged, so what it ends
with is what the first samples give (`scan_eq_upTo`), and a sample is among them when no earlier
one has diverged (`le_taken_scan`). Of the samples taken, the approach is the least separation and
the first sample that attains it (`upTo_closest`).
-/

namespace PitFleet

namespace Approach

section Walk

variable {α : Type} [Scalar α] (first : α) (sep : ℕ → α)

/-- The first `n` samples taken into account, diverged or not. -/
def upTo : ℕ → Approach α
  | 0 => ⟨first, none, 0⟩
  | n + 1 => (upTo n).take (n + 1) (sep (n + 1))

def Diverged (k : ℕ) : Prop :=
  lastKeptSample < k ∧ first * divergence < sep k

instance (k : ℕ) : Decidable (Diverged first sep k) :=
  inferInstanceAs (Decidable (_ ∧ _))

/-- The walk gets as far as sample `k`, unless it has no sample `k`. -/
def Reaches (k : ℕ) : Prop :=
  ∀ j < k, ¬ Diverged first sep j

variable {first sep}

theorem taken_take (a : Approach α) (k : ℕ) (d : α) : (a.take k d).taken = a.taken + 1 := by
  unfold take
  split <;> rfl

theorem taken_upTo : ∀ n, (upTo first sep n).taken = n
  | 0 => rfl
  | n + 1 => by rw [upTo, taken_take, taken_upTo n]

theorem Reaches.mono {m n : ℕ} (h : Reaches first sep n) (hmn : m ≤ n) : Reaches first sep m :=
  fun j hj => h j (Nat.lt_of_lt_of_le hj hmn)

theorem Reaches.succ {k : ℕ} (h : Reaches first sep k) (hk : ¬ Diverged first sep k) :
    Reaches first sep (k + 1) := by
  intro j hj
  rcases Nat.lt_succ_iff_lt_or_eq.1 hj with hlt | rfl
  · exact h j hlt
  · exact hk

theorem reaches_lastKeptSample : Reaches first sep (lastKeptSample + 1) :=
  fun _ hj hd => absurd hd.1 (by omega)

/-- From sample `k + 1` on, the walk goes to some sample `m`: the last one it may take, or the
first one to diverge. -/
theorem walk_upTo : ∀ n k, Reaches first sep (k + 1) →
    ∃ m, walk first sep n (k + 1) (upTo first sep k) = upTo first sep m
      ∧ m ≤ k + n ∧ Reaches first sep m ∧ (m = k + n ∨ Diverged first sep m)
  | 0, k, hk => ⟨k, rfl, Nat.le_refl k, hk.mono k.le_succ, .inl rfl⟩
  | n + 1, k, hk => by
    by_cases hd : Diverged first sep (k + 1)
    · refine ⟨k + 1, ?_, by omega, hk, .inr hd⟩
      rw [walk]
      exact if_pos hd
    · obtain ⟨m, hm, hle, hr, hend⟩ := walk_upTo n (k + 1) (hk.succ hd)
      refine ⟨m, ?_, by omega, hr, hend.imp_left (by omega)⟩
      rw [walk, ← hm]
      exact if_neg hd

variable (first sep) in
theorem scan_upTo : ∃ m, scan first sep = upTo first sep m ∧ m ≤ sampleCount
    ∧ Reaches first sep m ∧ (m = sampleCount ∨ Diverged first sep m) := by
  have hstart : Reaches first sep 1 := reaches_lastKeptSample.mono (by decide)
  obtain ⟨m, hm, hle, hr, hend⟩ := walk_upTo sampleCount 0 hstart
  rw [Nat.zero_add] at hle hend
  exact ⟨m, hm, hle, hr, hend⟩

theorem scan_eq_upTo : scan first sep = upTo first sep (scan first sep).taken := by
  obtain ⟨m, hm, -⟩ := scan_upTo first sep
  rw [hm, taken_upTo]

theorem le_taken_scan {k : ℕ} :
    k ≤ (scan first sep).taken ↔ k ≤ sampleCount ∧ Reaches first sep k := by
  obtain ⟨m, hm, hle, hr, hend⟩ := scan_upTo first sep
  rw [hm, taken_upTo]
  refine ⟨fun h => ⟨Nat.le_trans h hle, hr.mono h⟩, fun ⟨hk, hk'⟩ => ?_⟩
  by_contra hc
  rcases hend with rfl | hd
  · exact hc hk
  · exact hk' m (Nat.lt_of_not_le hc) hd

/-- A walk that ends early has diverged. -/
theorem diverged_taken (h : (scan first sep).taken ≠ sampleCount) :
    Diverged first sep (scan first sep).taken := by
  obtain ⟨m, hm, -, -, hend⟩ := scan_upTo first sep
  rw [hm, taken_upTo] at h ⊢
  exact hend.resolve_left h

end Walk

section Least

/-- An approach that is the least of a first separation and `n` sampled ones. A separation that is
no number is passed over. -/
structure Closest {α : Type} [Scalar α] (first : α) (sep : ℕ → α) (n : ℕ) (p : Approach α) :
    Prop where
  le_first : p.distance ≤ first
  le : ∀ k, 0 < k → k ≤ n → Scalar.isNaN (sep k) = false → p.distance ≤ sep k
  atFirst : p.sample = none → p.distance = first
  atSample : ∀ k, p.sample = some k → 0 < k ∧ k ≤ n ∧ p.distance = sep k ∧ sep k < first
    ∧ ∀ j, 0 < j → j < k → ¬ sep j ≤ sep k

variable {α : Type} [Scalar α] [OrderedScalar α] {first : α} {sep : ℕ → α}

theorem take_closest {n : ℕ} {p : Approach α} (h : Closest first sep n p) :
    Closest first sep (n + 1) (p.take (n + 1) (sep (n + 1))) := by
  unfold take
  split
  · rename_i hlt
    refine ⟨Scalar.le_of_lt (Scalar.lt_of_lt_of_le hlt h.le_first), ?_, by simp, ?_⟩
    · intro k hk hkn hnum
      rcases Nat.le_succ_iff.1 hkn with hle | rfl
      · exact Scalar.le_of_lt (Scalar.lt_of_lt_of_le hlt (h.le k hk hle hnum))
      · exact Scalar.le_refl hnum
    · simp only [Option.some.injEq, forall_eq']
      refine ⟨n.succ_pos, Nat.le_refl _, trivial, Scalar.lt_of_lt_of_le hlt h.le_first, ?_⟩
      intro j hj hjn hc
      have hle := h.le j hj (Nat.le_of_lt_succ hjn) (OrderedScalar.isNaN_of_le hc).1
      exact Scalar.not_le_of_lt hlt (OrderedScalar.le_trans hle hc)
  · rename_i hlt
    refine ⟨h.le_first, ?_, h.atFirst, ?_⟩
    · intro k hk hkn hnum
      rcases Nat.le_succ_iff.1 hkn with hle | rfl
      · exact h.le k hk hle hnum
      · exact Scalar.le_of_not_lt hnum (OrderedScalar.isNaN_of_le h.le_first).1 hlt
    · intro k hk
      obtain ⟨hpos, hle, hrest⟩ := h.atSample k hk
      exact ⟨hpos, Nat.le_trans hle n.le_succ, hrest⟩

/-- The approach is at the last sample when that is strictly nearer than all before it. -/
theorem Closest.sample_eq_last {n : ℕ} {p : Approach α} (h : Closest first sep n p) (hn : 0 < n) :
    p.sample = some n ↔ sep n < first ∧ ∀ j, 0 < j → j < n → ¬ sep j ≤ sep n := by
  refine ⟨fun hp => (h.atSample n hp).2.2.2, fun ⟨hlt, hall⟩ => ?_⟩
  have hle := h.le n hn (Nat.le_refl n) (Scalar.isNaN_of_lt hlt).1
  rcases hp : p.sample with _ | k
  · rw [h.atFirst hp] at hle
    exact absurd hle (Scalar.not_le_of_lt hlt)
  · obtain ⟨hpos, hkn, hk, -⟩ := h.atSample k hp
    rcases Nat.lt_or_eq_of_le hkn with hlt' | rfl
    · rw [hk] at hle
      exact absurd hle (hall k hpos hlt')
    · rfl

theorem upTo_closest (hfirst : Scalar.isNaN first = false) (sep : ℕ → α) :
    ∀ n, Closest first sep n (upTo first sep n)
  | 0 => ⟨Scalar.le_refl hfirst, by omega, fun _ => rfl, by simp [upTo]⟩
  | n + 1 => take_closest (upTo_closest hfirst sep n)

theorem scan_closest (hfirst : Scalar.isNaN first = false) (sep : ℕ → α) :
    Closest first sep (scan first sep).taken (scan first sep) := by
  have h := upTo_closest hfirst sep (scan first sep).taken
  rwa [← scan_eq_upTo] at h

end Least

section Time

variable {α : Type} [Scalar α] [OrderedScalar α]

theorem sampleTime_mem_figures {k : ℕ} (hk : k ≤ sampleCount) : 5 * k ∈ Scalar.figures := by
  refine List.mem_append_left _ (List.mem_map.2 ⟨k, List.mem_range.2 ?_, rfl⟩)
  unfold sampleCount at hk
  omega

/-- The times of the samples keep their order, rounded or not. -/
theorem sampleTime_lt_iff {j k : ℕ} (hj : j ≤ sampleCount) (hk : k ≤ sampleCount) :
    (sampleTime j : α) < sampleTime k ↔ j < k := by
  have := Scalar.tenths_lt_iff (α := α) (sampleTime_mem_figures hj) (sampleTime_mem_figures hk)
  exact this.trans (by omega)

end Time

end Approach

end PitFleet
