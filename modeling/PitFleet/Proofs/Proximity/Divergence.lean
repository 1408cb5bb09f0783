import PitFleet.Proofs.Proximity.HeadOn

/-!
# The early end loses nothing on straight tracks

The separations of vehicles on straight tracks are convex in time. Once such a sequence is above its
first value it rises for good (`ConvexSamples.rising`), so what a diverged walk leaves out never comes
below what it has found (`ConvexSamples.sample_scan`), and the assessment is that of all samples.
-/

namespace PitFleet

namespace Approach

def samples {α : Type} (first : α) (sep : ℕ → α) : ℕ → α
  | 0 => first
  | k + 1 => sep (k + 1)

/-- Exact separations whose increments never fall. -/
structure ConvexSamples (first : ℝ) (sep : ℕ → ℝ) : Prop where
  nonneg : ∀ k, k ≤ sampleCount → 0 ≤ samples first sep k
  convex : ∀ k, k + 2 ≤ sampleCount →
    samples first sep (k + 1) - samples first sep k
      ≤ samples first sep (k + 2) - samples first sep (k + 1)

theorem samples_of_pos {α : Type} {first : α} {sep : ℕ → α} {k : ℕ} (hk : 0 < k) :
    samples first sep k = sep k := by
  obtain ⟨n, rfl⟩ := Nat.exists_eq_succ_of_ne_zero hk.ne'
  rfl

variable {first : ℝ} {sep : ℕ → ℝ}

namespace ConvexSamples

variable (h : ConvexSamples first sep)
include h

/-- The last increment is at least the mean one. -/
theorem rise_le : ∀ k, k + 1 ≤ sampleCount →
    samples first sep (k + 1) - first
      ≤ (k + 1) * (samples first sep (k + 1) - samples first sep k)
  | 0, _ => by simp [samples]
  | k + 1, hk => by
    have ih := rise_le k (by omega)
    have hstep := h.convex k hk
    have hmul := mul_le_mul_of_nonneg_left hstep (show (0 : ℝ) ≤ k + 1 by positivity)
    push_cast
    linarith

theorem rising {k : ℕ} (hpos : 0 < k) (hk : first < samples first sep k) :
    ∀ n, k + n ≤ sampleCount → first < samples first sep (k + n)
  | 0, _ => hk
  | n + 1, hn => by
    have ih := rising hpos hk n (by omega)
    obtain ⟨j, hj⟩ := Nat.exists_eq_succ_of_ne_zero (show k + n ≠ 0 by omega)
    rw [hj] at ih
    have hmean := h.rise_le j (by omega)
    have hinc : 0 < samples first sep (j + 1) - samples first sep j := by
      by_contra hc
      have hle := mul_nonpos_of_nonneg_of_nonpos (show (0 : ℝ) ≤ j + 1 by positivity) (not_lt.1 hc)
      linarith
    have hstep := h.convex j (by omega)
    rw [← Nat.add_assoc, hj]
    show first < samples first sep (j + 2)
    linarith

theorem lt_of_diverged {k j : ℕ} (hd : Diverged first sep k) (hk : k ≤ j) (hj : j ≤ sampleCount) :
    first < sep j := by
  have hpos : 0 < k := Nat.zero_lt_of_lt hd.1
  have hfirst : 0 ≤ first := h.nonneg 0 (Nat.zero_le _)
  have hfar := hd.2
  rw [divergence] at hfar
  have hlt : first < samples first sep k := by
    rw [samples_of_pos hpos]
    norm_num at hfar
    linarith
  have hrise := h.rising hpos hlt (j - k) (by omega)
  rwa [Nat.add_sub_cancel' hk, samples_of_pos (hpos.trans_le hk)] at hrise

end ConvexSamples

/-- Samples that are not nearer leave the distance and the sample that attains it. -/
theorem upTo_add {α : Type} [Scalar α] {first : α} {sep : ℕ → α} {m : ℕ} : ∀ n,
    (∀ j, m < j → j ≤ m + n → ¬ sep j < (upTo first sep m).distance) →
      (upTo first sep (m + n)).distance = (upTo first sep m).distance
        ∧ (upTo first sep (m + n)).sample = (upTo first sep m).sample
  | 0, _ => ⟨rfl, rfl⟩
  | n + 1, hfar => by
    obtain ⟨hdistance, hsample⟩ := upTo_add n fun j hj hjn => hfar j hj (by omega)
    have hlast := hfar (m + n + 1) (by omega) (by omega)
    rw [← hdistance] at hlast
    rw [← Nat.add_assoc, upTo, take, if_neg hlast]
    exact ⟨hdistance, hsample⟩

/-- The walk finds what all samples give. -/
theorem ConvexSamples.sample_scan (h : ConvexSamples first sep) :
    (upTo first sep sampleCount).distance = (scan first sep).distance
      ∧ (upTo first sep sampleCount).sample = (scan first sep).sample := by
  by_cases hend : (scan first sep).taken = sampleCount
  · rw [scan_eq_upTo, hend]
    exact ⟨rfl, rfl⟩
  · have hle := (le_taken_scan.1 (Nat.le_refl (scan first sep).taken)).1
    obtain ⟨n, hn⟩ := Nat.exists_eq_add_of_le hle
    have hd := diverged_taken hend
    have hnum : Scalar.isNaN first = false := rfl
    have hfound := (upTo_closest hnum sep (scan first sep).taken).le_first
    rw [hn, scan_eq_upTo, taken_upTo]
    refine upTo_add n fun j hj hjn => ?_
    have hfar := h.lt_of_diverged hd hj.le (by omega)
    exact not_lt_of_ge (hfound.trans hfar.le)

end Approach

namespace Assessment

open Approach

section Outlook

variable {α : Type} [Scalar α]

/-- What a pair amounts to, given how its separations are watched and what the present says. -/
def ofOutlook (watch : α → (ℕ → α) → Approach α) (a b : Track α) :
    Outlook α → Option (Assessment α)
  | .noRisk => none
  | .breached distance => some ⟨.critical, a.encounter b, 0.0, distance⟩
  | .undecided distance =>
    ofApproach (a.combinedRadius b) (a.encounter b) (watch distance (a.separation b))

theorem assess_eq_ofOutlook (a b : Track α) : assess a b = ofOutlook scan a b (outlook a b) := by
  rw [assess]
  cases outlook a b <;> rfl

/-- What a pair amounts to when all samples are taken, whether it has drifted apart or not. -/
def assessFully (a b : Track α) : Option (Assessment α) :=
  ofOutlook (fun first sep => upTo first sep sampleCount) a b (outlook a b)

theorem ofApproach_congr {radius : α} {encounter : Encounter}
    {p q : Approach α} (hdistance : p.distance = q.distance) (hsample : p.sample = q.sample) :
    ofApproach radius encounter p = ofApproach radius encounter q := by
  simp only [ofApproach, hdistance, hsample]

theorem outlook_undecided {a b : Track α} {d : α} (h : outlook a b = .undecided d) :
    d = a.position.distance b.position := by
  simp only [outlook] at h
  split_ifs at h
  exact (Outlook.undecided.inj h).symm

end Outlook

theorem convexSamples_oncomingHauler {gap : ℝ} (hgap : 0 ≤ gap) :
    ConvexSamples (hauler.position.distance (oncomingHauler gap).position)
      (hauler.separation (oncomingHauler gap)) := by
  have hsample (k : ℕ) : samples (hauler.position.distance (oncomingHauler gap).position)
      (hauler.separation (oncomingHauler gap)) k = |gap - 10 * (k : ℝ)| := by
    cases k with
    | zero => simp [samples, distance_oncomingHauler hgap, abs_of_nonneg hgap]
    | succ k => exact separation_oncomingHauler gap (k + 1)
  refine ⟨fun k _ => ?_, fun k _ => ?_⟩
  · rw [hsample]
    exact abs_nonneg _
  · rw [hsample, hsample, hsample]
    have htriangle := abs_add_le (gap - 10 * (k : ℝ)) (gap - 10 * ((k + 2 : ℕ) : ℝ))
    have hmid : (gap - 10 * (k : ℝ)) + (gap - 10 * ((k + 2 : ℕ) : ℝ))
        = 2 * (gap - 10 * ((k + 1 : ℕ) : ℝ)) := by
      push_cast
      ring
    rw [hmid, abs_mul, abs_two] at htriangle
    linarith

theorem assess_eq_assessFully {a b : Track ℝ}
    (h : ConvexSamples (a.position.distance b.position) (a.separation b)) :
    assess a b = assessFully a b := by
  rw [assess_eq_ofOutlook, assessFully]
  rcases hout : outlook a b with _ | d | d
  · rfl
  · rfl
  · rw [outlook_undecided hout]
    exact ofApproach_congr h.sample_scan.1.symm h.sample_scan.2.symm

/-- Haul trucks that meet at 20 m/s, 70 m apart, have diverged after nine seconds, long before the
horizon. -/
theorem assess_eq_assessFully_oncoming :
    ConvexSamples (hauler.position.distance (oncomingHauler 70).position)
        (hauler.separation (oncomingHauler 70))
      ∧ Diverged 70 (hauler.separation (oncomingHauler 70)) 18
      ∧ assess hauler (oncomingHauler 70) = assessFully hauler (oncomingHauler 70) := by
  have hconvex := convexSamples_oncomingHauler (show (0 : ℝ) ≤ 70 by norm_num)
  refine ⟨hconvex, ⟨by decide, ?_⟩, assess_eq_assessFully hconvex⟩
  rw [separation_oncomingHauler, divergence]
  norm_num

end Assessment

end PitFleet
