import PitFleet.Proofs.Proximity.Alarm
import PitFleet.Proofs.Proximity.Divergence

/-!
# A smaller room is no greater risk

A smaller room can take a breach of now to the samples, where the closest approach tells the
severity, and it can clear a pair. It never adds an alert and never makes one more severe
(`exists_assess_of_radius_le`), and an alert of a pair outside its room is the same whatever room it
breaches.
-/

namespace PitFleet

variable {α : Type} [Scalar α]

def Track.withRadius (a : Track α) (r : α) : Track α :=
  { a with safetyRadius := r }

theorem Severity.le_critical (s : Severity) : s ≤ .critical := by
  cases s <;> decide

theorem Severity.le_self (s : Severity) : s ≤ s :=
  Nat.le_refl s.code

namespace Assessment

variable {a b : Track α} {r s : α}

theorem outlook_withRadius_noRisk (h : outlook a b = .noRisk) :
    outlook (a.withRadius r) (b.withRadius s) = .noRisk := by
  unfold outlook at h ⊢
  by_cases hparked : ¬ movingSpeed < a.speed ∧ ¬ movingSpeed < b.speed
  · exact if_pos hparked
  · rw [if_neg hparked] at h
    by_cases hfar : cutoffDistance < a.position.distance b.position
    · exact (if_neg hparked).trans (if_pos hfar)
    · simp only [if_neg hfar] at h
      split at h <;> cases h

variable [OrderedScalar α]

theorem outlook_withRadius_undecided {d : α} (hr : r + s ≤ a.combinedRadius b)
    (h : outlook a b = .undecided d) :
    outlook (a.withRadius r) (b.withRadius s) = .undecided d := by
  obtain rfl := outlook_undecided h
  unfold outlook at h ⊢
  split at h
  · cases h
  · rename_i hmoving
    simp only at h
    split_ifs at h with hfar hnow
    have hnow' : ¬ a.position.distance b.position < r + s := fun hc =>
      hnow (Scalar.lt_of_lt_of_le hc hr)
    exact (if_neg hmoving).trans ((if_neg hfar).trans (if_neg hnow'))

/-- A closest approach within a room is within a larger one, with the same severity. -/
theorem ofApproach_of_radius_le {radius radius' : α} {encounter : Encounter} {p : Approach α}
    {x : Assessment α} (hr : radius ≤ radius') (hx : ofApproach radius encounter p = some x) :
    ofApproach radius' encounter p = some x := by
  rcases hp : p.sample with _ | k
  · simp only [ofApproach, hp] at hx
    cases hx
  · simp only [ofApproach, hp] at hx ⊢
    by_cases hd : radius ≤ p.distance
    · rw [if_pos hd] at hx
      cases hx
    · rw [if_neg hd] at hx
      have hd' : ¬ radius' ≤ p.distance := fun hc => hd (OrderedScalar.le_trans hr hc)
      rwa [if_neg hd']

/-- What a smaller room finds, the larger one finds at least as severe, and outside of the larger
room it finds the same. -/
theorem exists_assess_of_radius_le (hr : r + s ≤ a.combinedRadius b) {x : Assessment α}
    (hx : assess (a.withRadius r) (b.withRadius s) = some x) :
    ∃ y, assess a b = some y ∧ x.severity ≤ y.severity
      ∧ (¬ a.position.distance b.position < a.combinedRadius b → x = y) := by
  rcases hout : outlook a b with _ | d | d
  · rw [assess, outlook_withRadius_noRisk hout] at hx
    cases hx
  · refine ⟨⟨.critical, a.encounter b, 0.0, d⟩, ?_, x.severity.le_critical, fun hapart => ?_⟩
    · rw [assess, hout]
    · unfold outlook at hout
      simp only [if_neg hapart] at hout
      split_ifs at hout
  · rw [assess, outlook_withRadius_undecided hr hout] at hx
    refine ⟨x, ?_, x.severity.le_self, fun _ => rfl⟩
    rw [assess, hout]
    exact ofApproach_of_radius_le hr hx

/-- A smaller room never raises the severity, no alert being the least of all, and of a pair that is
outside of the larger room it leaves an alert as it is. -/
theorem severity_le_of_radius_le (hr : r + s ≤ a.combinedRadius b) :
    (assess (a.withRadius r) (b.withRadius s)).map (·.severity) ≤ (assess a b).map (·.severity)
      ∧ (a.combinedRadius b ≤ a.position.distance b.position →
        ∀ x, assess (a.withRadius r) (b.withRadius s) = some x → assess a b = some x) := by
  refine ⟨?_, fun hapart x hx => ?_⟩
  · rcases hx : assess (a.withRadius r) (b.withRadius s) with _ | x
    · exact Option.none_le
    · obtain ⟨y, hy, hle, -⟩ := exists_assess_of_radius_le hr hx
      rw [hy]
      exact hle
  · obtain ⟨y, hy, -, heq⟩ := exists_assess_of_radius_le hr hx
    rw [hy, heq (Scalar.not_lt_of_le hapart)]

/-- Haul trucks that meet at 20 m/s, 70 m apart, come within any room. -/
theorem severity_le_of_radius_le_oncoming :
    (20 : ℝ) + 20 ≤ hauler.combinedRadius (oncomingHauler 70)
      ∧ hauler.combinedRadius (oncomingHauler 70)
        ≤ hauler.position.distance (oncomingHauler 70).position
      ∧ ∃ x, assess (hauler.withRadius 20) ((oncomingHauler 70).withRadius 20) = some x
        ∧ assess hauler (oncomingHauler 70) = some x := by
  have hradius := combinedRadius_oncomingHauler 70
  have hdistance := distance_oncomingHauler (show (0 : ℝ) ≤ 70 by norm_num)
  have hr : (20 : ℝ) + 20 ≤ hauler.combinedRadius (oncomingHauler 70) := by
    rw [hradius]
    norm_num
  have hapart : hauler.combinedRadius (oncomingHauler 70)
      ≤ hauler.position.distance (oncomingHauler 70).position := by
    rw [hradius, hdistance]
    norm_num
  have hsome :
      (assess (hauler.withRadius 20) ((oncomingHauler 70).withRadius 20)).isSome = true := by
    refine isSome_assess_of_breaches (.inl moving_hauler) ?_ (.inr ⟨6, by decide, by decide, ?_, ?_⟩)
      fun h => h.before 7 (by decide) (by decide) ?_
    · show hauler.position.distance (oncomingHauler 70).position ≤ (500.0 : ℝ)
      rw [hdistance]
      norm_num
    · show Approach.Reaches (hauler.position.distance (oncomingHauler 70).position)
        (hauler.separation (oncomingHauler 70)) 6
      rw [hdistance]
      exact reaches_oncomingHauler (by norm_num)
    · show hauler.separation (oncomingHauler 70) 6 < 20 + 20
      rw [separation_oncomingHauler]
      norm_num
    · show hauler.separation (oncomingHauler 70) 7 ≤ hauler.separation (oncomingHauler 70) 30
      rw [separation_oncomingHauler, separation_oncomingHauler]
      norm_num
  obtain ⟨x, hx⟩ := Option.isSome_iff_exists.1 hsome
  exact ⟨hr, hapart, x, hx, (severity_le_of_radius_le hr).2 hapart x hx⟩

end Assessment

end PitFleet
