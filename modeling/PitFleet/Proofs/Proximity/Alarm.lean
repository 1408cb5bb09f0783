import PitFleet.Proofs.Proximity.Closest
import PitFleet.Proofs.Proximity.HeadOn

/-!
# When a breach is reported

A pair that moves, is near enough to be looked at and breaches its room, now or at a sample before
the horizon, is reported unless it is nearest at the horizon and at no sample before: the closest
approach is then a quarter of a minute away, which has no severity. One earlier breach does not
count by itself, as the alarm is told by the closest approach alone.
-/

namespace PitFleet

open Approach

section Horizon

variable {α : Type} [Scalar α] [OrderedScalar α]

theorem Severity.ofTimeToImpact_sampleTime {k : ℕ} (hk : k ≤ sampleCount) :
    Severity.ofTimeToImpact (sampleTime k : α)
      = if k < 6 then critical else if k < 10 then high else if k < 20 then medium
        else if k < 30 then low else none := by
  have h3 : (3.0 : α) = sampleTime 6 := rfl
  have h5 : (5.0 : α) = sampleTime 10 := rfl
  have h10 : (10.0 : α) = sampleTime 20 := rfl
  have h15 : (15.0 : α) = sampleTime 30 := rfl
  simp only [ofTimeToImpact, h3, h5, h10, h15]
  simp only [sampleTime_lt_iff hk (show 6 ≤ sampleCount by decide),
    sampleTime_lt_iff hk (show 10 ≤ sampleCount by decide),
    sampleTime_lt_iff hk (show 20 ≤ sampleCount by decide),
    sampleTime_lt_iff hk (show 30 ≤ sampleCount by decide)]

/-- Only an approach at the horizon has no severity. -/
theorem Severity.ofTimeToImpact_eq_none {k : ℕ} (hk : k ≤ sampleCount) :
    Severity.ofTimeToImpact (sampleTime k : α) = none ↔ k = sampleCount := by
  have hcount : sampleCount = 30 := rfl
  rw [ofTimeToImpact_sampleTime hk]
  split_ifs <;> simp <;> omega

end Horizon

namespace Assessment

variable {α : Type} [Scalar α] [OrderedScalar α] {a b : Track α}

/-- The pair is outside its room, is watched to the horizon and is nearest there and not before. -/
structure NearestAtHorizon (a b : Track α) : Prop where
  apart : ¬ a.position.distance b.position < a.combinedRadius b
  reaches : Reaches (a.position.distance b.position) (a.separation b) sampleCount
  closing : a.separation b sampleCount < a.position.distance b.position
  before : ∀ k, 0 < k → k < sampleCount → ¬ a.separation b k ≤ a.separation b sampleCount

/-- The pair is within its room now, or at a sample before the horizon that the walk gets to. -/
def Breaches (a b : Track α) : Prop :=
  a.position.distance b.position < a.combinedRadius b
    ∨ ∃ k, 0 < k ∧ k < sampleCount
      ∧ Reaches (a.position.distance b.position) (a.separation b) k
      ∧ a.separation b k < a.combinedRadius b

theorem isSome_ofApproach {radius : α} {encounter : Encounter} {p : Approach α} {k : ℕ}
    (hp : p.sample = some k) (hk : k ≤ sampleCount) :
    (ofApproach radius encounter p).isSome = true ↔ ¬ radius ≤ p.distance ∧ k ≠ sampleCount := by
  have hnone := Severity.ofTimeToImpact_eq_none (α := α) hk
  simp only [ofApproach, hp]
  by_cases hr : radius ≤ p.distance
  · simp [hr]
  · rw [if_neg hr, ne_eq, ← hnone]
    rcases Severity.ofTimeToImpact (sampleTime k : α) with _ | _ | _ | _ | _ <;> simp [hr]

omit [OrderedScalar α] in
theorem outlook_of_cutoff (h : cutoffDistance < a.position.distance b.position) :
    outlook a b = .noRisk := by
  simp only [outlook, if_pos h, ite_self]

omit [OrderedScalar α] in
theorem outlook_of_not_cutoff (moving : movingSpeed < a.speed ∨ movingSpeed < b.speed)
    (near : ¬ cutoffDistance < a.position.distance b.position) :
    outlook a b = if a.position.distance b.position < a.combinedRadius b
      then .breached (a.position.distance b.position)
      else .undecided (a.position.distance b.position) := by
  rw [outlook, if_neg (fun h => moving.elim h.1 h.2), if_neg near]

theorem outlook_of_moving (moving : movingSpeed < a.speed ∨ movingSpeed < b.speed)
    (near : a.position.distance b.position ≤ cutoffDistance) :
    outlook a b = if a.position.distance b.position < a.combinedRadius b
      then .breached (a.position.distance b.position)
      else .undecided (a.position.distance b.position) :=
  outlook_of_not_cutoff moving (Scalar.not_lt_of_le near)

theorem scan_sample_eq_sampleCount {first : α} {sep : ℕ → α} (hfirst : Scalar.isNaN first = false) :
    (scan first sep).sample = some sampleCount ↔ Reaches first sep sampleCount
      ∧ sep sampleCount < first ∧ ∀ k, 0 < k → k < sampleCount → ¬ sep k ≤ sep sampleCount := by
  have hclosest := scan_closest hfirst sep
  have hlast : sampleCount ≤ (scan first sep).taken →
      (scan first sep).taken = sampleCount := fun h => Nat.le_antisymm (le_taken_scan.1 le_rfl).1 h
  constructor
  · intro h
    have hle := (hclosest.atSample _ h).2.1
    rw [hlast hle] at hclosest
    exact ⟨(le_taken_scan.1 hle).2, (hclosest.sample_eq_last (by decide)).1 h⟩
  · rintro ⟨hreach, h⟩
    rw [hlast (le_taken_scan.2 ⟨le_rfl, hreach⟩)] at hclosest
    exact (hclosest.sample_eq_last (by decide)).2 h

theorem assess_of_nearestAtHorizon (moving : movingSpeed < a.speed ∨ movingSpeed < b.speed)
    (near : a.position.distance b.position ≤ cutoffDistance) (h : NearestAtHorizon a b) :
    assess a b = none := by
  have hnum := (OrderedScalar.isNaN_of_le near).1
  have hsample := (scan_sample_eq_sampleCount hnum).2 ⟨h.reaches, h.closing, h.before⟩
  rw [assess, outlook_of_moving moving near, if_neg h.apart, ← Option.not_isSome_iff_eq_none]
  intro hc
  exact ((isSome_ofApproach hsample le_rfl).1 hc).2 rfl

/-- The least separation is within the room too, and at a sample; only the horizon is let pass. -/
theorem isSome_assess_of_breaches (moving : movingSpeed < a.speed ∨ movingSpeed < b.speed)
    (near : a.position.distance b.position ≤ cutoffDistance) (hbreach : Breaches a b)
    (h : ¬ NearestAtHorizon a b) : (assess a b).isSome = true := by
  have hnum := (OrderedScalar.isNaN_of_le near).1
  rw [assess, outlook_of_moving moving near]
  by_cases hnow : a.position.distance b.position < a.combinedRadius b
  · rw [if_pos hnow]
    rfl
  rw [if_neg hnow]
  obtain ⟨k, hpos, hlt, hreach, hk⟩ := hbreach.resolve_left hnow
  have hclosest := scan_closest hnum (a.separation b)
  have hle := hclosest.le k hpos (le_taken_scan.2 ⟨hlt.le, hreach⟩) (Scalar.isNaN_of_lt hk).1
  have hroom := Scalar.lt_of_le_of_lt hle hk
  rcases hp : (scan (a.position.distance b.position) (a.separation b)).sample with _ | m
  · rw [hclosest.atFirst hp] at hroom
    exact absurd hroom hnow
  · have hm := (le_taken_scan.1 (hclosest.atSample m hp).2.1).1
    refine (isSome_ofApproach hp hm).2 ⟨Scalar.not_le_of_lt hroom, ?_⟩
    rintro rfl
    obtain ⟨hreach, hclosing, hbefore⟩ := (scan_sample_eq_sampleCount hnum).1 hp
    exact h ⟨hnow, hreach, hclosing, hbefore⟩

/-- No breach that the walk gets to is missed but for a pair that is nearest at the horizon. -/
theorem breach_reported_iff (moving : movingSpeed < a.speed ∨ movingSpeed < b.speed)
    (near : a.position.distance b.position ≤ cutoffDistance) (hbreach : Breaches a b) :
    (assess a b).isSome = true ↔ ¬ NearestAtHorizon a b := by
  refine ⟨fun hsome h => ?_, isSome_assess_of_breaches moving near hbreach⟩
  simp [assess_of_nearestAtHorizon moving near h] at hsome

/-- Haul trucks that meet at 20 m/s, 200 m apart, are nearest after ten seconds. -/
theorem breach_reported_oncoming : Breaches hauler (oncomingHauler 200)
    ∧ (assess hauler (oncomingHauler 200)).isSome = true := by
  have hdistance := distance_oncomingHauler (show (0 : ℝ) ≤ 200 by norm_num)
  have hbreach : Breaches hauler (oncomingHauler 200) := by
    refine .inr ⟨15, by decide, by decide, ?_, ?_⟩
    · rw [hdistance]
      exact reaches_oncomingHauler (by norm_num)
    · rw [separation_oncomingHauler, combinedRadius_oncomingHauler]
      norm_num [abs_of_pos]
  refine ⟨hbreach, (breach_reported_iff (.inl moving_hauler) ?_ hbreach).2 fun h => ?_⟩
  · rw [hdistance, cutoffDistance]
    norm_num
  · refine h.before 20 (by decide) (by decide) ?_
    rw [separation_oncomingHauler, separation_oncomingHauler]
    norm_num

/-- Haul trucks that meet at 20 m/s, 300 m apart, breach their room after twelve and a half seconds
and meet at the horizon; they are not reported. -/
theorem breach_unreported_at_horizon : movingSpeed < hauler.speed
    ∧ hauler.position.distance (oncomingHauler 300).position ≤ cutoffDistance
    ∧ Breaches hauler (oncomingHauler 300) ∧ assess hauler (oncomingHauler 300) = none := by
  have hdistance := distance_oncomingHauler (show (0 : ℝ) ≤ 300 by norm_num)
  have hnear : hauler.position.distance (oncomingHauler 300).position ≤ cutoffDistance := by
    rw [hdistance, cutoffDistance]
    norm_num
  refine ⟨moving_hauler, hnear, .inr ⟨25, by decide, by decide, ?_, ?_⟩,
    assess_of_nearestAtHorizon (.inl moving_hauler) hnear ⟨?_, ?_, ?_, ?_⟩⟩
  · rw [hdistance]
    exact reaches_oncomingHauler (by norm_num)
  · rw [separation_oncomingHauler, combinedRadius_oncomingHauler]
    norm_num
  · rw [hdistance, combinedRadius_oncomingHauler]
    norm_num
  · rw [hdistance]
    exact reaches_oncomingHauler (by norm_num [sampleCount])
  · rw [hdistance, separation_oncomingHauler]
    norm_num [sampleCount]
  · intro k _ hlt
    rw [separation_oncomingHauler, separation_oncomingHauler, not_le]
    have hcast : (k : ℝ) < 30 := by exact_mod_cast hlt
    norm_num [sampleCount]
    linarith

end Assessment

end PitFleet
