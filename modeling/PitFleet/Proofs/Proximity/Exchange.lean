import Mathlib
import PitFleet.Proofs.Proximity.Alarm
import PitFleet.Proofs.Proximity.Readings

/-!
# The order of a pair

Of the separations the check only uses which are below which, and where on the way the least one is
(`Approach.nearest`). So the two orders of a pair, which read its separations differently, raise one
alarm unless a comparison tells the readings apart (`Assessment.assess_exchange`). One can: a pair
may be within its room in one order only.
-/

namespace PitFleet

namespace Approach

variable {α : Type} [Scalar α] {first first' : α} {sep sep' : ℕ → α}

/-- The first of the least among samples `0` to `n`. -/
def nearest (s : ℕ → α) : ℕ → ℕ
  | 0 => 0
  | n + 1 => if s (n + 1) < s (nearest s n) then n + 1 else nearest s n

theorem nearest_le (s : ℕ → α) : ∀ n, nearest s n ≤ n
  | 0 => Nat.le_refl 0
  | n + 1 => by
    unfold nearest
    split_ifs
    · exact Nat.le_refl _
    · exact (nearest_le s n).trans n.le_succ

/-- The sample that an approach at instant `i` names. -/
def sample? (i : ℕ) : Option ℕ :=
  if i = 0 then none else some i

theorem upTo_nearest : ∀ n,
    (upTo first sep n).distance = samples first sep (nearest (samples first sep) n)
      ∧ (upTo first sep n).sample = sample? (nearest (samples first sep) n)
  | 0 => ⟨rfl, rfl⟩
  | n + 1 => by
    have ih := upTo_nearest n
    have hlast : samples first sep (n + 1) = sep (n + 1) := rfl
    rw [upTo, take, nearest, ih.1, hlast]
    by_cases hlt : sep (n + 1) < samples first sep (nearest (samples first sep) n)
    · rw [if_pos hlt, if_pos hlt]
      exact ⟨rfl, rfl⟩
    · rw [if_neg hlt, if_neg hlt]
      exact ⟨rfl, ih.2⟩

/-- Two readings of the separations that a walk over `n` samples does not tell apart: each is
compared with the least one before it and with the bound on drifting apart. -/
structure Alike (n : ℕ) (s s' : ℕ → α) : Prop where
  nearer : ∀ k, k < n → (s (k + 1) < s (nearest s k) ↔ s' (k + 1) < s' (nearest s k))
  farther : ∀ k, lastKeptSample < k → k ≤ n →
    (s 0 * divergence < s k ↔ s' 0 * divergence < s' k)

namespace Alike

theorem nearest_eq {n : ℕ} {s s' : ℕ → α} (h : Alike n s s') :
    ∀ m ≤ n, nearest s m = nearest s' m
  | 0, _ => rfl
  | m + 1, hm => by
    have ih := h.nearest_eq m (by omega)
    rw [nearest, nearest, ← ih]
    exact if_congr (h.nearer m hm) rfl rfl

/-- Both walks end at one sample. -/
theorem taken_scan
    (h : Alike (scan first sep).taken (samples first sep) (samples first' sep')) :
    (scan first' sep').taken = (scan first sep).taken := by
  have hdiverged : ∀ k ≤ (scan first sep).taken,
      (Diverged first sep k ↔ Diverged first' sep' k) := by
    refine fun k hk => and_congr_right fun hlast => ?_
    have hfar := h.farther k hlast hk
    have hpos : 0 < k := Nat.zero_lt_of_lt hlast
    rwa [samples_of_pos hpos, samples_of_pos hpos] at hfar
  obtain ⟨hcount, hreaches⟩ := le_taken_scan.1 (Nat.le_refl (scan first sep).taken)
  have hle : (scan first sep).taken ≤ (scan first' sep').taken :=
    le_taken_scan.2 ⟨hcount, fun j hj hd => hreaches j hj ((hdiverged j hj.le).2 hd)⟩
  refine le_antisymm (not_lt.1 fun hlt => ?_) hle
  obtain ⟨hcount', hreaches'⟩ := le_taken_scan.1 (Nat.le_refl (scan first' sep').taken)
  have hend : Diverged first sep (scan first sep).taken := diverged_taken (by omega)
  exact hreaches' _ hlt ((hdiverged _ le_rfl).1 hend)

end Alike

end Approach

open Approach

section Swap

variable {α : Type} [Scalar α]

/-- The walk over the separations of a pair finds the nearest of the instants that it takes. -/
theorem Track.scan_reading {a b : Track α} {n : ℕ}
    (hn : (scan (a.reading b 0) (a.separation b)).taken = n) :
    (scan (a.reading b 0) (a.separation b)).distance = a.reading b (nearest (a.reading b) n)
      ∧ (scan (a.reading b 0) (a.separation b)).sample = sample? (nearest (a.reading b) n) := by
  rw [scan_eq_upTo, hn, ← a.samples_eq_reading b]
  exact upTo_nearest n

/-- The instant at which the check finds a pair nearest. -/
def Track.nearestInstant (a b : Track α) : ℕ :=
  nearest (a.reading b) (Assessment.predictionCount a b)

theorem Track.nearestInstant_le (a b : Track α) :
    a.nearestInstant b ≤ Assessment.predictionCount a b :=
  nearest_le ..

/-- No comparison that the check makes of a pair that moves tells the two orders apart. -/
structure Track.ReadAlike (a b : Track α) : Prop where
  cutoff : Assessment.cutoffDistance < a.reading b 0 ↔ Assessment.cutoffDistance < b.reading a 0
  within : ¬ Assessment.cutoffDistance < a.reading b 0 →
    (a.reading b 0 < a.combinedRadius b ↔ b.reading a 0 < b.combinedRadius a)
  samples : Alike (Assessment.predictionCount a b) (a.reading b) (b.reading a)
  outside : 0 < a.nearestInstant b →
    (a.combinedRadius b ≤ a.reading b (a.nearestInstant b)
      ↔ b.combinedRadius a ≤ b.reading a (a.nearestInstant b))

namespace Assessment

variable {a b : Track α}

theorem predictionCount_le (a b : Track α) : predictionCount a b ≤ sampleCount := by
  unfold predictionCount
  split
  · exact (le_taken_scan.1 le_rfl).1
  · exact Nat.zero_le _

/-- What is reported of a pair besides its distance. -/
def alarm (r : Assessment α) : Severity × Encounter × α :=
  (r.severity, r.encounter, r.timeToImpact)

theorem ofApproach_sample? {radius d d' : α} {encounter : Encounter} {p q : Approach α} {i : ℕ}
    (hp : p.distance = d ∧ p.sample = sample? i) (hq : q.distance = d' ∧ q.sample = sample? i)
    (houtside : 0 < i → (radius ≤ d ↔ radius ≤ d')) :
    ofApproach radius encounter q
      = (ofApproach radius encounter p).map fun r => { r with distance := d' } := by
  unfold ofApproach
  rw [hp.1, hp.2, hq.1, hq.2]
  rcases Nat.eq_zero_or_pos i with rfl | hi
  · rfl
  · simp only [sample?, hi.ne', if_false, ← houtside hi]
    split_ifs
    · rfl
    · cases Severity.ofTimeToImpact (sampleTime i : α) <;> rfl

theorem ofApproach_eq_some {radius : α} {encounter : Encounter} {p : Approach α}
    {r : Assessment α} (h : ofApproach radius encounter p = some r) :
    r.encounter = encounter ∧ r.distance = p.distance
      ∧ ∃ k, p.sample = some k ∧ r.timeToImpact = sampleTime k := by
  unfold ofApproach at h
  split at h
  · cases h
  · rename_i k hk
    split_ifs at h
    dsimp only at h
    split at h
    · cases h
    · cases h
      exact ⟨rfl, rfl, k, hk, rfl⟩

theorem encounter_of_assess {r : Assessment α} (h : assess a b = some r) :
    r.encounter = a.encounter b := by
  unfold assess at h
  split at h
  · cases h
  · cases h
    rfl
  · exact (ofApproach_eq_some h).1

/-- The present says the same in both orders. -/
theorem outlook_swap (h : movingSpeed < a.speed ∨ movingSpeed < b.speed → a.ReadAlike b) :
    (outlook a b = .noRisk ∧ outlook b a = .noRisk)
      ∨ (outlook a b = .breached (a.reading b 0) ∧ outlook b a = .breached (b.reading a 0))
      ∨ (outlook a b = .undecided (a.reading b 0) ∧ outlook b a = .undecided (b.reading a 0)
        ∧ a.ReadAlike b) := by
  by_cases hparked : ¬ movingSpeed < a.speed ∧ ¬ movingSpeed < b.speed
  · exact .inl ⟨if_pos hparked, if_pos hparked.symm⟩
  have hread := h (by tauto)
  have hab : outlook a b = if cutoffDistance < a.reading b 0 then .noRisk
      else if a.reading b 0 < a.combinedRadius b then .breached (a.reading b 0)
      else .undecided (a.reading b 0) := if_neg hparked
  have hba : outlook b a = if cutoffDistance < b.reading a 0 then .noRisk
      else if b.reading a 0 < b.combinedRadius a then .breached (b.reading a 0)
      else .undecided (b.reading a 0) := if_neg fun hc => hparked hc.symm
  rw [hab, hba]
  simp only [← hread.cutoff]
  by_cases hcut : cutoffDistance < a.reading b 0
  · exact .inl ⟨if_pos hcut, if_pos hcut⟩
  simp only [if_neg hcut, ← hread.within hcut]
  split_ifs
  · exact .inr (.inl ⟨rfl, rfl⟩)
  · exact .inr (.inr ⟨rfl, rfl, hread⟩)

end Assessment

section Mirrored

variable [MirroredScalar α]

theorem Track.combinedRadius_comm (a b : Track α) : a.combinedRadius b = b.combinedRadius a :=
  MirroredScalar.add_comm ..

theorem Heading.difference_comm (x y : α) : Heading.difference x y = Heading.difference y x := by
  unfold Heading.difference
  rw [MirroredScalar.abs_sub_comm]

theorem Track.encounter_comm (a b : Track α) : a.encounter b = b.encounter a := by
  unfold Track.encounter Encounter.ofHeadings
  rw [Heading.difference_comm]

namespace Assessment

variable {a b : Track α}

/-- In both orders the same is reported, with the distance of one instant as each order reads it. -/
theorem exists_assess_swap
    (h : movingSpeed < a.speed ∨ movingSpeed < b.speed → a.ReadAlike b) :
    ∃ i ≤ predictionCount a b, (∀ r, assess a b = some r → r.distance = a.reading b i)
      ∧ assess b a = (assess a b).map fun r => { r with distance := b.reading a i } := by
  rcases outlook_swap h with ⟨hab, hba⟩ | ⟨hab, hba⟩ | ⟨hab, hba, hread⟩
  · exact ⟨0, Nat.zero_le _, by simp [assess, hab], by simp [assess, hab, hba]⟩
  · refine ⟨0, Nat.zero_le _, by simp +contextual [assess, hab, eq_comm], ?_⟩
    simp [assess, hab, hba, a.encounter_comm b]
  · have hcount : predictionCount a b = (scan (a.reading b 0) (a.separation b)).taken := by
      rw [predictionCount, hab]
    have htaken : (scan (b.reading a 0) (b.separation a)).taken = predictionCount a b := by
      rw [hcount]
      refine Alike.taken_scan ?_
      rw [Track.samples_eq_reading, Track.samples_eq_reading, ← hcount]
      exact hread.samples
    -- Both walks take the same samples and find the least separation at one of them.
    have hnear := Track.scan_reading hcount.symm
    have hnear' := Track.scan_reading htaken
    rw [← hread.samples.nearest_eq _ le_rfl] at hnear'
    refine ⟨a.nearestInstant b, a.nearestInstant_le b, fun r hr => ?_, ?_⟩
    · rw [assess, hab] at hr
      exact (ofApproach_eq_some hr).2.1.trans hnear.1
    · rw [assess, assess, hab, hba, b.encounter_comm a, b.combinedRadius_comm a]
      refine ofApproach_sample? hnear hnear' fun hpos => ?_
      have houtside := hread.outside hpos
      rwa [b.combinedRadius_comm a] at houtside

theorem readAlike_of_sameNarrowing
    (h : ∀ k ≤ predictionCount a b, (a.place k).SameNarrowing (b.place k)) : a.ReadAlike b := by
  have hsame : ∀ k ≤ predictionCount a b, a.reading b k = b.reading a k := fun k hk =>
    Position.distance_comm (h k hk)
  have hnow := hsame 0 (Nat.zero_le _)
  refine ⟨by rw [hnow], fun _ => by rw [hnow, a.combinedRadius_comm b], ⟨?_, ?_⟩, fun _ => ?_⟩
  · intro k hk
    rw [hsame (k + 1) hk, hsame _ ((nearest_le _ k).trans hk.le)]
  · intro k _ hk
    rw [hnow, hsame k hk]
  · rw [hsame _ (a.nearestInstant_le b), a.combinedRadius_comm b]

/-- Neither the room of a pair nor its kind of encounter depends on the order, and the alarm does
only if a comparison tells the two readings of the distances apart. With one cosine for both
vehicles at every instant all is the same. -/
theorem assess_exchange (a b : Track α) :
    a.combinedRadius b = b.combinedRadius a
      ∧ (∀ r s, assess a b = some r → assess b a = some s → r.encounter = s.encounter)
      ∧ ((movingSpeed < a.speed ∨ movingSpeed < b.speed → a.ReadAlike b) →
        (assess a b).map alarm = (assess b a).map alarm)
      ∧ ((∀ k ≤ predictionCount a b, (a.place k).SameNarrowing (b.place k)) →
        assess a b = assess b a) := by
  refine ⟨a.combinedRadius_comm b, fun r s hr hs => ?_, fun h => ?_, fun h => ?_⟩
  · rw [encounter_of_assess hr, encounter_of_assess hs, a.encounter_comm b]
  · obtain ⟨i, -, -, hswap⟩ := exists_assess_swap h
    rw [hswap, Option.map_map]
    rfl
  · obtain ⟨i, hi, hdistance, hswap⟩ := exists_assess_swap fun _ => readAlike_of_sameNarrowing h
    have hsame : a.reading b i = b.reading a i := Position.distance_comm (h i hi)
    rw [hswap]
    cases hr : assess a b with
    | none => rfl
    | some r => rw [Option.map_some, ← hsame, ← hdistance r hr]

end Assessment

end Mirrored

end Swap

namespace Assessment

section Bystander

/-- So near to the equator the longitudes are narrowed, but hardly. -/
theorem narrowing_bounds {north : ℝ} (hpos : 0 < north) (hle : north ≤ 100) :
    99 / 100 ≤ Real.cos (north / earthRadius) ∧ Real.cos (north / earthRadius) < 1 := by
  have hsmall : north / earthRadius ≤ 1 / 10 := by
    rw [earthRadius_real]
    linarith
  have hangle : 0 < north / earthRadius := by
    rw [earthRadius_real]
    positivity
  constructor
  · have hcos := Real.one_sub_sq_div_two_le_cos (x := north / earthRadius)
    nlinarith
  · have hpi := Real.pi_gt_three
    have hlt := Real.cos_lt_cos_of_nonneg_of_le_pi le_rfl (by linarith) hangle
    rwa [Real.cos_zero] at hlt

theorem combinedRadius_bystander (north east : ℝ) :
    eastbound.combinedRadius (bystander north east) = 60 := by
  show (30.0 : ℝ) + 30.0 = 60
  norm_num

/-- The separations of a truck and a bystander ten metres off its way, with longitudes narrowed
by `c`. -/
noncomputable def passing (c : ℝ) (k : ℕ) : ℝ :=
  √(c ^ 2 * (100 - 5 * (k : ℝ)) ^ 2 + 10 ^ 2)

theorem passing_lt_iff {c : ℝ} (hc : 0 < c) (j k : ℕ) :
    passing c k < passing c j ↔ (100 - 5 * (k : ℝ)) ^ 2 < (100 - 5 * (j : ℝ)) ^ 2 := by
  have hnonneg (i : ℕ) : 0 ≤ c ^ 2 * (100 - 5 * (i : ℝ)) ^ 2 + 10 ^ 2 := by positivity
  rw [passing, passing, Real.sqrt_lt_sqrt_iff (hnonneg k), add_lt_add_iff_right,
    mul_lt_mul_iff_right₀ (by positivity)]

theorem passing_near {c : ℝ} {k : ℕ} (hk : k ≤ sampleCount) :
    ¬ passing c 0 * divergence < passing c k := by
  have hcast : (k : ℝ) ≤ 30 := by exact_mod_cast hk
  have hpos : (0 : ℝ) ≤ k := k.cast_nonneg
  have hle : passing c k ≤ passing c 0 := by
    refine Real.sqrt_le_sqrt ?_
    have hsq : (100 - 5 * (k : ℝ)) ^ 2 ≤ (100 - 5 * ((0 : ℕ) : ℝ)) ^ 2 := by
      rw [Nat.cast_zero]
      nlinarith only [hcast, hpos]
    linarith [mul_le_mul_of_nonneg_left hsq (sq_nonneg c)]
  have hfirst : 0 ≤ passing c 0 := Real.sqrt_nonneg _
  rw [divergence]
  norm_num
  linarith

theorem passing_outside_iff {c : ℝ} (hlow : 99 / 100 ≤ c) (hhigh : c ≤ 1) {k : ℕ}
    (hk : k ≤ sampleCount) : 60 ≤ passing c k ↔ k ≤ 8 := by
  have hsq : 49 / 50 ≤ c ^ 2 := by nlinarith only [hlow]
  have hsq' : c ^ 2 ≤ 1 := by nlinarith only [hlow, hhigh]
  have hcast : (k : ℝ) ≤ 30 := by exact_mod_cast hk
  rw [passing, Real.le_sqrt' (by norm_num)]
  constructor
  · intro hfar
    by_contra hc
    have hge : (9 : ℝ) ≤ k := by exact_mod_cast not_le.1 hc
    have hnear : (100 - 5 * (k : ℝ)) ^ 2 ≤ 55 ^ 2 := by nlinarith only [hge, hcast]
    nlinarith only [hfar, hnear, hsq', sq_nonneg (100 - 5 * (k : ℝ))]
  · intro hle
    have hle' : (k : ℝ) ≤ 8 := by exact_mod_cast hle
    have hfar : 60 ^ 2 ≤ (100 - 5 * (k : ℝ)) ^ 2 := by nlinarith only [hle']
    nlinarith only [hfar, hsq]

theorem passing_cutoff {c : ℝ} (hlow : 99 / 100 ≤ c) (hhigh : c ≤ 1) :
    ¬ cutoffDistance < passing c 0 := by
  have hsq : c ^ 2 ≤ 1 := by nlinarith only [hlow, hhigh]
  rw [passing, cutoffDistance, Real.lt_sqrt (by norm_num)]
  norm_num
  linarith

theorem reading_passing (k : ℕ) : eastbound.reading (bystander 10 100) k = passing 1 k
    ∧ (bystander 10 100).reading eastbound k = passing (Real.cos (10 / earthRadius)) k := by
  rw [reading_eastbound, reading_bystander, passing, passing]
  constructor
  · rw [one_pow, one_mul]
  · congr 1
    ring

theorem readAlike_bystander : eastbound.ReadAlike (bystander 10 100) := by
  obtain ⟨hlow, hhigh⟩ := narrowing_bounds (show (0 : ℝ) < 10 by norm_num) (by norm_num)
  have hread (k : ℕ) := (reading_passing k).1
  have hback (k : ℕ) := (reading_passing k).2
  have hroom := combinedRadius_bystander 10 100
  have hroom' := (bystander 10 100).combinedRadius_comm eastbound
  rw [hroom] at hroom'
  have hcount := predictionCount_le eastbound (bystander 10 100)
  generalize Real.cos (10 / earthRadius) = c at *
  refine ⟨?_, fun _ => ?_, ⟨?_, ?_⟩, fun _ => ?_⟩
  · rw [hread, hback]
    exact iff_of_false (passing_cutoff (by norm_num) le_rfl) (passing_cutoff hlow hhigh.le)
  · rw [hread, hback, hroom, hroom', ← not_le, ← not_le,
      passing_outside_iff (by norm_num) le_rfl (Nat.zero_le _),
      passing_outside_iff hlow hhigh.le (Nat.zero_le _)]
  · intro k _
    rw [hread, hread, hback, hback, passing_lt_iff one_pos, passing_lt_iff (by linarith)]
  · intro k _ hk
    rw [hread, hread, hback, hback]
    exact iff_of_false (passing_near (hk.trans hcount)) (passing_near (hk.trans hcount))
  · have hk := (eastbound.nearestInstant_le (bystander 10 100)).trans hcount
    rw [hread, hback, hroom, hroom', passing_outside_iff (by norm_num) le_rfl hk,
      passing_outside_iff hlow hhigh.le hk]

theorem assess_exchange_bystander :
    eastbound.ReadAlike (bystander 10 100)
      ∧ (bystander 10 100).reading eastbound 0 < eastbound.reading (bystander 10 100) 0
      ∧ (assess eastbound (bystander 10 100)).map alarm
        = (assess (bystander 10 100) eastbound).map alarm
      ∧ (∀ k ≤ predictionCount eastbound (bystander 0 100),
        (eastbound.place k).SameNarrowing ((bystander 0 100).place k))
      ∧ assess eastbound (bystander 0 100) = assess (bystander 0 100) eastbound := by
  have hlevel : ∀ k ≤ predictionCount eastbound (bystander 0 100),
      (eastbound.place k).SameNarrowing ((bystander 0 100).place k) := fun k _ => by
    rw [place_eastbound, place_bystander]
    rfl
  refine ⟨readAlike_bystander, ?_,
    (assess_exchange eastbound (bystander 10 100)).2.2.1 fun _ => readAlike_bystander, hlevel,
    (assess_exchange eastbound (bystander 0 100)).2.2.2 hlevel⟩
  obtain ⟨hlow, hhigh⟩ := narrowing_bounds (show (0 : ℝ) < 10 by norm_num) (by norm_num)
  rw [(reading_passing 0).1, (reading_passing 0).2]
  refine Real.sqrt_lt_sqrt (by positivity) ?_
  norm_num
  nlinarith only [hlow, hhigh]

/-- A pair that is not within its room yet has some time left. -/
theorem timeToImpact_pos {a b : Track ℝ} {d : ℝ} (hundecided : outlook a b = .undecided d)
    {r : Assessment ℝ} (h : assess a b = some r) : 0 < r.timeToImpact := by
  rw [assess, hundecided] at h
  obtain ⟨-, -, k, hk, htime⟩ := ofApproach_eq_some h
  have hpos := ((scan_closest rfl (a.separation b)).atSample k hk).1
  rw [htime, sampleTime_real]
  positivity

/-- Read from the equator, the parked truck is 60 m away and just outside of the room of the pair;
read from beside it, it is within. -/
theorem alarm_ne_swap :
    (assess eastbound (bystander 36 48)).map alarm
      ≠ (assess (bystander 36 48) eastbound).map alarm := by
  obtain ⟨hlow, hhigh⟩ := narrowing_bounds (show (0 : ℝ) < 36 by norm_num) (by norm_num)
  have hroom := combinedRadius_bystander 36 48
  have hroom' := (bystander 36 48).combinedRadius_comm eastbound
  rw [hroom] at hroom'
  have hmoving : movingSpeed < eastbound.speed := by
    show (1.0 : ℝ) < 36.0
    norm_num
  have hread : eastbound.position.distance (bystander 36 48).position = 60 := by
    have h := reading_eastbound 36 48 0
    rw [show (48 - 5 * ((0 : ℕ) : ℝ)) ^ 2 + 36 ^ 2 = 60 ^ 2 by norm_num] at h
    exact h.trans (Real.sqrt_sq (by norm_num))
  have hback : (bystander 36 48).position.distance eastbound.position < 60 := by
    refine (reading_bystander 36 48 0).trans_lt ((Real.sqrt_lt' (by norm_num)).2 ?_)
    norm_num
    nlinarith only [hlow, hhigh]
  have hundecided : outlook eastbound (bystander 36 48) = .undecided 60 := by
    rw [outlook_of_moving (.inl hmoving) (by rw [hread, cutoffDistance]; norm_num), hread, hroom]
    exact if_neg (lt_irrefl _)
  have hbreached : assess (bystander 36 48) eastbound = some ⟨.critical,
      (bystander 36 48).encounter eastbound, 0.0,
      (bystander 36 48).position.distance eastbound.position⟩ := by
    rw [assess, outlook_of_moving (.inr hmoving) (by rw [cutoffDistance]; norm_num; linarith),
      hroom', if_pos hback]
  intro hsame
  rw [hbreached, Option.map_some, Option.map_eq_some_iff] at hsame
  obtain ⟨r, hr, halarm⟩ := hsame
  have htime : r.timeToImpact = 0.0 := congrArg (fun alarm => alarm.2.2) halarm
  have hpos := timeToImpact_pos hundecided hr
  rw [htime] at hpos
  norm_num at hpos

end Bystander

end Assessment

end PitFleet
