import Mathlib
import PitFleet.Proofs.Proximity.Alarm

/-!
# The verdict on a pair

Which samples the walk takes and which of them is the closest approach is said without walking: the
walk ends at its last sample or at the first one to diverge (`LastTaken`), and of the samples taken
the first least one counts (`FirstNearest`), if the pair comes nearer at all. With these two numbers
the verdict on a pair is a rule with five cases (`Verdict`), and it is what the assessment says and
the number of predictions that it asks for (`Assessment.verdict_iff`).
-/

namespace PitFleet

namespace Approach

variable {α : Type} [Scalar α] {first : α} {sep : ℕ → α} {n k : ℕ}

/-! ## How far the walk goes -/

/-- Sample `n` is the first one to diverge, or the last of all if none does. -/
structure LastTaken (first : α) (sep : ℕ → α) (n : ℕ) : Prop where
  le : n ≤ sampleCount
  before : ∀ j < n, ¬ Diverged first sep j
  ends : Diverged first sep n ∨ n = sampleCount

theorem lastTaken_iff : LastTaken first sep n ↔ n = (scan first sep).taken := by
  constructor
  · intro h
    have hle : n ≤ (scan first sep).taken := le_taken_scan.2 ⟨h.le, h.before⟩
    obtain ⟨hcount, hreach⟩ := le_taken_scan.1 (le_refl (scan first sep).taken)
    refine hle.eq_of_not_lt fun hlt => ?_
    rcases h.ends with hd | hlast
    · exact hreach n hlt hd
    · omega
  · rintro rfl
    obtain ⟨hcount, hreach⟩ := le_taken_scan.1 (le_refl (scan first sep).taken)
    refine ⟨hcount, hreach, ?_⟩
    by_cases hlast : (scan first sep).taken = sampleCount
    · exact .inr hlast
    · exact .inl (diverged_taken hlast)

theorem exists_lastTaken (first : α) (sep : ℕ → α) : ∃ n, LastTaken first sep n :=
  ⟨(scan first sep).taken, lastTaken_iff.2 rfl⟩

/-- The kept samples are always taken. -/
theorem LastTaken.pos (h : LastTaken first sep n) : 0 < n := by
  rw [lastTaken_iff.1 h, ← Nat.succ_le_iff, le_taken_scan]
  exact ⟨by decide, reaches_lastKeptSample.mono (by decide)⟩

/-! ## Where it comes nearest -/

/-- Of the first `n` samples `k` is nearest, and none before it is as near. -/
structure FirstNearest (sep : ℕ → α) (n k : ℕ) : Prop where
  pos : 0 < k
  le : k ≤ n
  nearest : ∀ j, 0 < j → j ≤ n → sep k ≤ sep j
  earliest : ∀ j, 0 < j → j < k → sep k < sep j

variable [OrderedScalar α]

theorem FirstNearest.unique {j : ℕ} (hj : FirstNearest sep n j) (hk : FirstNearest sep n k) :
    j = k := by
  rcases lt_trichotomy j k with hlt | heq | hlt
  · exact absurd (hj.nearest k hk.pos hk.le) (Scalar.not_le_of_lt (hk.earliest j hj.pos hlt))
  · exact heq
  · exact absurd (hk.nearest j hj.pos hj.le) (Scalar.not_le_of_lt (hj.earliest k hk.pos hlt))

theorem exists_firstNearest (hn : 0 < n)
    (hnum : ∀ j, 0 < j → j ≤ n → Scalar.isNaN (sep j) = false) : ∃ k, FirstNearest sep n k := by
  induction n, hn using Nat.le_induction with
  | base =>
    refine ⟨1, one_pos, le_rfl, fun j hpos hle => ?_, fun j hpos hlt => by omega⟩
    rw [le_antisymm hle hpos]
    exact Scalar.le_refl (hnum 1 one_pos le_rfl)
  | succ n hn ih =>
    obtain ⟨k, hk⟩ := ih fun j hpos hle => hnum j hpos (Nat.le_succ_of_le hle)
    have hlast := hnum (n + 1) n.succ_pos le_rfl
    have hbest := hnum k hk.pos (Nat.le_succ_of_le hk.le)
    by_cases hlt : sep (n + 1) < sep k
    · have hall (j : ℕ) (hpos : 0 < j) (hle : j ≤ n) : sep (n + 1) < sep j :=
        Scalar.lt_of_lt_of_le hlt (hk.nearest j hpos hle)
      refine ⟨n + 1, n.succ_pos, le_rfl, fun j hpos hle => ?_,
        fun j hpos hj => hall j hpos (Nat.le_of_lt_succ hj)⟩
      rcases Nat.le_succ_iff.1 hle with hle | rfl
      · exact Scalar.le_of_lt (hall j hpos hle)
      · exact Scalar.le_refl hlast
    · refine ⟨k, hk.pos, Nat.le_succ_of_le hk.le, fun j hpos hle => ?_, hk.earliest⟩
      rcases Nat.le_succ_iff.1 hle with hle | rfl
      · exact hk.nearest j hpos hle
      · exact Scalar.le_of_not_lt hlast hbest hlt

namespace Closest

variable {p : Approach α} (h : Closest first sep n p)
include h

/-- An approach at a sample is at the first nearest one. -/
theorem firstNearest {j : ℕ} (hnum : ∀ j, 0 < j → j ≤ n → Scalar.isNaN (sep j) = false)
    (hp : p.sample = some j) : FirstNearest sep n j := by
  obtain ⟨hpos, hjn, hdistance, -, hbefore⟩ := h.atSample j hp
  refine ⟨hpos, hjn, fun i hi hin => ?_, fun i hi hij => ?_⟩
  · rw [← hdistance]
    exact h.le i hi hin (hnum i hi hin)
  · have hin : i ≤ n := hij.le.trans hjn
    exact Scalar.lt_of_not_le (hnum i hi hin) (hnum j hpos hjn) (hbefore i hi hij)

/-- The walk finds the first nearest sample if that is nearer than the pair is now. -/
theorem atSample_of_lt (hnum : ∀ j, 0 < j → j ≤ n → Scalar.isNaN (sep j) = false)
    (hk : FirstNearest sep n k) (hnearer : sep k < first) :
    p.sample = some k ∧ p.distance = sep k := by
  have hle := h.le k hk.pos hk.le (hnum k hk.pos hk.le)
  rcases hp : p.sample with _ | j
  · rw [h.atFirst hp] at hle
    exact absurd hle (Scalar.not_le_of_lt hnearer)
  · obtain rfl := (h.firstNearest hnum hp).unique hk
    exact ⟨rfl, (h.atSample j hp).2.2.1⟩

/-- A walk whose nearest sample leaves the room free finds nothing within it. -/
theorem le_distance {radius : α} (hfirst : radius ≤ first) (hk : FirstNearest sep n k)
    (hroom : radius ≤ sep k) : radius ≤ p.distance := by
  rcases hp : p.sample with _ | j
  · rw [h.atFirst hp]
    exact hfirst
  · obtain ⟨hpos, hjn, hdistance, -⟩ := h.atSample j hp
    rw [hdistance]
    exact OrderedScalar.le_trans hroom (hk.nearest j hpos hjn)

end Closest

end Approach

namespace Assessment

open Approach

variable {α : Type} [Scalar α]

section Rule

variable (a b : Track α)

/-- All that is compared of a pair is a number. -/
structure Numeric : Prop where
  radius : Scalar.isNaN (a.combinedRadius b) = false
  now : Scalar.isNaN (a.position.distance b.position) = false
  samples : ∀ k, 0 < k → k ≤ sampleCount → Scalar.isNaN (a.separation b k) = false

/-- The pair moves, is near enough to be looked at and is outside its room. -/
structure Watched : Prop where
  moving : movingSpeed < a.speed ∨ movingSpeed < b.speed
  near : ¬ cutoffDistance < a.position.distance b.position
  apart : a.combinedRadius b ≤ a.position.distance b.position

/-- Of the `n` samples that are taken of a watched pair, `k` is the closest approach. -/
structure Watches (n k : ℕ) : Prop extends Watched a b where
  last : LastTaken (a.position.distance b.position) (a.separation b) n
  nearest : FirstNearest (a.separation b) n k

/-- The rule by which a pair is judged, with the number of times that each position is predicted. -/
inductive Verdict : Option (Assessment α) → ℕ → Prop
  | parked (hfirst : ¬ movingSpeed < a.speed) (hsecond : ¬ movingSpeed < b.speed) :
      Verdict none 0
  | far (hfar : cutoffDistance < a.position.distance b.position) : Verdict none 0
  | breached (hmoving : movingSpeed < a.speed ∨ movingSpeed < b.speed)
      (hnear : ¬ cutoffDistance < a.position.distance b.position)
      (hroom : a.position.distance b.position < a.combinedRadius b) :
      Verdict (some ⟨.critical, a.encounter b, 0.0, a.position.distance b.position⟩) 0
  | passing {n k : ℕ} (hwatches : Watches a b n k)
      (hsafe : a.combinedRadius b ≤ a.separation b k ∨ k = sampleCount) : Verdict none n
  | closing {n k : ℕ} (hwatches : Watches a b n k)
      (hroom : a.separation b k < a.combinedRadius b) (hsoon : k < sampleCount) :
      Verdict (some ⟨.ofTimeToImpact (sampleTime k : α), a.encounter b, sampleTime k,
        a.separation b k⟩) n

end Rule

variable {a b : Track α}

theorem Watches.isNaN_separation {n k : ℕ} (h : Watches a b n k) (hnum : Numeric a b) (j : ℕ)
    (hpos : 0 < j) (hle : j ≤ n) : Scalar.isNaN (a.separation b j) = false :=
  hnum.samples j hpos (hle.trans h.last.le)

variable [OrderedScalar α]

theorem Watched.outlook (h : Watched a b) :
    outlook a b = .undecided (a.position.distance b.position) := by
  rw [outlook_of_not_cutoff h.moving h.near, if_neg (Scalar.not_lt_of_le h.apart)]

theorem Watched.exists_watches (h : Watched a b) (hnum : Numeric a b) :
    ∃ n k, Watches a b n k := by
  obtain ⟨n, hn⟩ := exists_lastTaken (a.position.distance b.position) (a.separation b)
  obtain ⟨k, hk⟩ := exists_firstNearest hn.pos fun j hpos hle =>
    hnum.samples j hpos (hle.trans hn.le)
  exact ⟨n, k, h, hn, hk⟩

theorem ofApproach_of_lt {radius : α} {encounter : Encounter} {p : Approach α} {k : ℕ}
    (hp : p.sample = some k) (hroom : p.distance < radius) (hsoon : k < sampleCount) :
    ofApproach radius encounter p
      = some ⟨.ofTimeToImpact (sampleTime k : α), encounter, sampleTime k, p.distance⟩ := by
  have hnone := (Severity.ofTimeToImpact_eq_none (α := α) hsoon.le).not.2 hsoon.ne
  simp only [ofApproach, hp, if_neg (Scalar.not_le_of_lt hroom)]

namespace Watches

variable {n k : ℕ} (h : Watches a b n k)
include h

theorem predictionCount_eq : predictionCount a b = n := by
  rw [predictionCount, h.toWatched.outlook]
  exact (lastTaken_iff.1 h.last).symm

theorem assess_eq : assess a b
    = ofApproach (a.combinedRadius b) (a.encounter b)
        (scan (a.position.distance b.position) (a.separation b)) := by
  rw [assess, h.toWatched.outlook]

theorem closest (hnum : Numeric a b) : Closest (a.position.distance b.position) (a.separation b) n
    (scan (a.position.distance b.position) (a.separation b)) := by
  rw [lastTaken_iff.1 h.last]
  exact scan_closest hnum.now (a.separation b)

/-- What comes within its room has been nearer than now, at the sample that is first nearest. -/
theorem scan_of_lt (hnum : Numeric a b) (hroom : a.separation b k < a.combinedRadius b) :
    (scan (a.position.distance b.position) (a.separation b)).sample = some k
      ∧ (scan (a.position.distance b.position) (a.separation b)).distance = a.separation b k :=
  (h.closest hnum).atSample_of_lt (h.isNaN_separation hnum) h.nearest
    (Scalar.lt_of_lt_of_le hroom h.apart)

theorem assess_of_safe (hnum : Numeric a b)
    (hsafe : a.combinedRadius b ≤ a.separation b k ∨ k = sampleCount) : assess a b = none := by
  rw [h.assess_eq]
  by_cases hroom : a.separation b k < a.combinedRadius b
  · -- Nearest at the horizon.
    have hlast : k = sampleCount := hsafe.resolve_left (Scalar.not_le_of_lt hroom)
    obtain ⟨hsample, -⟩ := h.scan_of_lt hnum hroom
    rw [← Option.not_isSome_iff_eq_none, isSome_ofApproach hsample hlast.le]
    exact fun hc => hc.2 hlast
  · have hnumber := h.isNaN_separation hnum k h.nearest.pos h.nearest.le
    have hfree := Scalar.le_of_not_lt hnumber hnum.radius hroom
    have hdistance := (h.closest hnum).le_distance h.apart h.nearest hfree
    unfold ofApproach
    split
    · rfl
    · rw [if_pos hdistance]

theorem assess_of_closing (hnum : Numeric a b) (hroom : a.separation b k < a.combinedRadius b)
    (hsoon : k < sampleCount) : assess a b
      = some ⟨.ofTimeToImpact (sampleTime k : α), a.encounter b, sampleTime k,
          a.separation b k⟩ := by
  obtain ⟨hsample, hdistance⟩ := h.scan_of_lt hnum hroom
  rw [h.assess_eq, ofApproach_of_lt hsample (hdistance ▸ hroom) hsoon, hdistance]

end Watches

/-- The rule agrees with the assessment wherever it gives a verdict. -/
theorem Verdict.eq (hnum : Numeric a b) {x : Option (Assessment α)} {n : ℕ}
    (h : Verdict a b x n) : assess a b = x ∧ predictionCount a b = n := by
  cases h with
  | parked hfirst hsecond =>
    have hout : outlook a b = .noRisk := if_pos ⟨hfirst, hsecond⟩
    rw [assess, predictionCount, hout]
    exact ⟨rfl, rfl⟩
  | far hfar =>
    rw [assess, predictionCount, outlook_of_cutoff hfar]
    exact ⟨rfl, rfl⟩
  | breached hmoving hnear hroom =>
    rw [assess, predictionCount, outlook_of_not_cutoff hmoving hnear, if_pos hroom]
    exact ⟨rfl, rfl⟩
  | passing hwatches hsafe =>
    exact ⟨hwatches.assess_of_safe hnum hsafe, hwatches.predictionCount_eq⟩
  | closing hwatches hroom hsoon =>
    exact ⟨hwatches.assess_of_closing hnum hroom hsoon, hwatches.predictionCount_eq⟩

/-- The rule gives a verdict on every pair. -/
theorem exists_verdict (hnum : Numeric a b) : ∃ x n, Verdict a b x n := by
  by_cases hmoving : movingSpeed < a.speed ∨ movingSpeed < b.speed
  · by_cases hfar : cutoffDistance < a.position.distance b.position
    · exact ⟨none, 0, .far hfar⟩
    by_cases hroom : a.position.distance b.position < a.combinedRadius b
    · exact ⟨_, 0, .breached hmoving hfar hroom⟩
    have hapart := Scalar.le_of_not_lt hnum.now hnum.radius hroom
    obtain ⟨n, k, h⟩ := Watched.exists_watches ⟨hmoving, hfar, hapart⟩ hnum
    by_cases hcloses : a.separation b k < a.combinedRadius b ∧ k < sampleCount
    · exact ⟨_, n, .closing h hcloses.1 hcloses.2⟩
    · refine ⟨none, n, .passing h ?_⟩
      have hnumber := h.isNaN_separation hnum k h.nearest.pos h.nearest.le
      by_cases hbelow : a.separation b k < a.combinedRadius b
      · have hle := h.nearest.le.trans h.last.le
        exact .inr (hle.eq_of_not_lt fun hlt => hcloses ⟨hbelow, hlt⟩)
      · exact .inl (Scalar.le_of_not_lt hnumber hnum.radius hbelow)
  · exact ⟨none, 0, .parked (fun h => hmoving (.inl h)) fun h => hmoving (.inr h)⟩

/-- An alarm of the rule has a severity. -/
theorem Verdict.severity_ne_none {r : Assessment α} {n : ℕ} (h : Verdict a b (some r) n) :
    r.severity ≠ .none := by
  cases h with
  | breached => exact nofun
  | closing _ _ hsoon => exact (Severity.ofTimeToImpact_eq_none hsoon.le).not.2 hsoon.ne

/-- The assessment of a pair and the number of predictions are those that the rule gives, and an
alarm always has a severity. -/
theorem verdict_iff (hnum : Numeric a b) :
    (∀ x n, Verdict a b x n ↔ assess a b = x ∧ predictionCount a b = n)
      ∧ ∀ r, assess a b = some r → r.severity ≠ .none := by
  obtain ⟨x, n, h⟩ := exists_verdict hnum
  obtain ⟨rfl, rfl⟩ := h.eq hnum
  refine ⟨fun x n => ⟨Verdict.eq hnum, ?_⟩, fun r hr => ?_⟩
  · rintro ⟨rfl, rfl⟩
    exact h
  · rw [hr] at h
    exact h.severity_ne_none

theorem lastTaken_oncomingHauler :
    LastTaken 75 (hauler.separation (oncomingHauler 75)) 19 := by
  have hfar (j : ℕ) : Diverged 75 (hauler.separation (oncomingHauler 75)) j
      ↔ 6 < j ∧ 112.5 < |75 - 10 * (j : ℝ)| := by
    rw [Diverged, lastKeptSample, separation_oncomingHauler, divergence]
    norm_num
  refine ⟨by decide, fun j hj hd => ?_, .inl ((hfar 19).2 ⟨by decide, ?_⟩)⟩
  · have hcast : (j : ℝ) ≤ 18 := by exact_mod_cast Nat.le_of_lt_succ hj
    have hle : |75 - 10 * (j : ℝ)| ≤ 105 := by
      have hpos : (0 : ℝ) ≤ j := j.cast_nonneg
      exact abs_le.2 ⟨by linarith, by linarith⟩
    linarith [((hfar j).1 hd).2]
  · norm_num

theorem separation_oncomingHauler_seven : hauler.separation (oncomingHauler 75) 7 = 5 := by
  rw [separation_oncomingHauler]
  norm_num

theorem firstNearest_oncomingHauler :
    FirstNearest (hauler.separation (oncomingHauler 75)) 19 7 := by
  refine ⟨by decide, by decide, fun j _ _ => ?_, fun j _ hj => ?_⟩
  · rw [separation_oncomingHauler_seven, separation_oncomingHauler, le_abs]
    rcases Nat.lt_or_ge j 8 with hlt | hge
    · have hcast : (j : ℝ) ≤ 7 := by exact_mod_cast Nat.le_of_lt_succ hlt
      exact .inl (by linarith)
    · have hcast : (8 : ℝ) ≤ j := by exact_mod_cast hge
      exact .inr (by linarith)
  · have hcast : (j : ℝ) ≤ 6 := by exact_mod_cast Nat.le_of_lt_succ hj
    rw [separation_oncomingHauler_seven, separation_oncomingHauler, lt_abs]
    exact .inl (by linarith)

/-- Haul trucks that meet at 20 m/s, 75 m apart, are as near after four seconds as half a second
before; the earlier instant counts, and after nine and a half seconds they have diverged. -/
theorem verdict_oncoming : Numeric hauler (oncomingHauler 75)
    ∧ assess hauler (oncomingHauler 75)
      = some ⟨.high, hauler.encounter (oncomingHauler 75), 3.5, 5⟩
    ∧ predictionCount hauler (oncomingHauler 75) = 19 := by
  have hnum : Numeric hauler (oncomingHauler 75) := ⟨rfl, rfl, fun _ _ _ => rfl⟩
  have hdistance := distance_oncomingHauler (show (0 : ℝ) ≤ 75 by norm_num)
  have hwatched : Watched hauler (oncomingHauler 75) := by
    refine ⟨.inl moving_hauler, ?_, ?_⟩
    · rw [hdistance, cutoffDistance]
      norm_num
    · rw [hdistance, combinedRadius_oncomingHauler]
      norm_num
  have hwatches : Watches hauler (oncomingHauler 75) 19 7 := by
    refine ⟨hwatched, ?_, firstNearest_oncomingHauler⟩
    rw [hdistance]
    exact lastTaken_oncomingHauler
  have hroom : hauler.separation (oncomingHauler 75) 7
      < hauler.combinedRadius (oncomingHauler 75) := by
    rw [separation_oncomingHauler_seven, combinedRadius_oncomingHauler]
    norm_num
  have hverdict := Verdict.closing hwatches hroom (by decide)
  rw [Severity.ofTimeToImpact_sampleTime (by decide),
    separation_oncomingHauler_seven] at hverdict
  exact ⟨hnum, ((verdict_iff hnum).1 _ _).1 hverdict⟩

end Assessment

end PitFleet
