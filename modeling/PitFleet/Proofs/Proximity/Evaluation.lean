import Mathlib.Data.List.Basic
import Mathlib.Data.List.FinRange
import Mathlib.Data.Sym.Sym2
import PitFleet.Proofs.Proximity.Alarm
import PitFleet.Proximity.Alert

/-!
# Each pair is looked at once

The alerts of an evaluation are those of the pairs of places `(i, j)` with `i < j`, in
lexicographic order (`evaluate_places`). What a pair amounts to depends on its two vehicles only, so
an evaluation of some of the vehicles gives the alerts among these (`evaluate_filter`), and an
inactive vehicle takes its own alerts with it (`evaluate_deactivate`).
-/

namespace PitFleet

section Pairs

variable {τ υ : Type}

theorem mem_of_mem_orderedPairs {x y : τ} : ∀ {l : List τ}, (x, y) ∈ orderedPairs l → x ∈ l ∧ y ∈ l
  | [], h => by cases h
  | z :: l, h => by
    rw [orderedPairs, List.mem_append, List.mem_map] at h
    rcases h with ⟨w, hw, heq⟩ | h
    · obtain ⟨rfl, rfl⟩ := Prod.mk.inj heq
      exact ⟨List.mem_cons_self, List.mem_cons_of_mem _ hw⟩
    · obtain ⟨hx, hy⟩ := mem_of_mem_orderedPairs h
      exact ⟨List.mem_cons_of_mem _ hx, List.mem_cons_of_mem _ hy⟩

theorem orderedPairs_map (f : τ → υ) : ∀ l : List τ,
    orderedPairs (l.map f) = (orderedPairs l).map fun p => (f p.1, f p.2)
  | [] => rfl
  | x :: l => by
    rw [List.map_cons, orderedPairs, orderedPairs, orderedPairs_map f l, List.map_append,
      List.map_map, List.map_map]
    rfl

/-- The pairs among some of the elements are the pairs of which both are among them. -/
theorem orderedPairs_filter (p : τ → Bool) : ∀ l : List τ,
    orderedPairs (l.filter p) = (orderedPairs l).filter fun q => p q.1 && p q.2
  | [] => rfl
  | x :: l => by
    have ih := orderedPairs_filter p l
    rw [orderedPairs, List.filter_append, ← ih, List.filter_map]
    by_cases hx : p x = true
    · rw [List.filter_cons_of_pos hx, orderedPairs]
      congr 2
      refine List.filter_congr fun y _ => ?_
      simp [hx]
    · rw [List.filter_cons_of_neg hx]
      have hnone : l.filter ((fun q => p q.1 && p q.2) ∘ (x, ·)) = [] := by
        refine List.filter_eq_nil_iff.2 fun y _ => ?_
        simp [hx]
      rw [hnone, List.map_nil, List.nil_append]

theorem nodup_orderedPairs : ∀ {l : List τ}, l.Nodup →
    ((orderedPairs l).map fun p => s(p.1, p.2)).Nodup
  | [], _ => List.nodup_nil
  | x :: l, h => by
    obtain ⟨hx, hl⟩ := List.nodup_cons.1 h
    rw [orderedPairs, List.map_append, List.map_map, List.nodup_append]
    refine ⟨hl.map fun y z hyz => ?_, nodup_orderedPairs hl, ?_⟩
    · exact Sym2.congr_right.1 hyz
    · intro p hp q hq hpq
      obtain ⟨y, -, rfl⟩ := List.mem_map.1 hp
      obtain ⟨⟨z, w⟩, hzw, rfl⟩ := List.mem_map.1 hq
      obtain ⟨hz, hw⟩ := mem_of_mem_orderedPairs hzw
      have hmem : x ∈ s(z, w) := hpq ▸ Sym2.mem_mk_left x y
      rcases Sym2.mem_iff.1 hmem with rfl | rfl
      · exact hx hz
      · exact hx hw

variable [Preorder τ]

theorem mem_orderedPairs_iff {x y : τ} : ∀ {l : List τ}, l.Pairwise (· < ·) →
    ((x, y) ∈ orderedPairs l ↔ x ∈ l ∧ y ∈ l ∧ x < y)
  | [], _ => by simp [orderedPairs]
  | z :: l, h => by
    obtain ⟨hz, hl⟩ := List.pairwise_cons.1 h
    rw [orderedPairs, List.mem_append, List.mem_map, mem_orderedPairs_iff hl]
    constructor
    · rintro (⟨w, hw, heq⟩ | ⟨hx, hy, hlt⟩)
      · obtain ⟨rfl, rfl⟩ := Prod.mk.inj heq
        exact ⟨List.mem_cons_self, List.mem_cons_of_mem _ hw, hz _ hw⟩
      · exact ⟨List.mem_cons_of_mem _ hx, List.mem_cons_of_mem _ hy, hlt⟩
    · rintro ⟨hx, hy, hlt⟩
      rcases List.mem_cons.1 hx with rfl | hx'
      · rcases List.mem_cons.1 hy with rfl | hy'
        · exact absurd hlt (lt_irrefl _)
        · exact .inl ⟨y, hy', rfl⟩
      · rcases List.mem_cons.1 hy with rfl | hy'
        · exact absurd (hlt.trans (hz _ hx')) (lt_irrefl _)
        · exact .inr ⟨hx', hy', hlt⟩

theorem pairwise_orderedPairs : ∀ {l : List τ}, l.Pairwise (· < ·) →
    (orderedPairs l).Pairwise (Prod.Lex (· < ·) (· < ·))
  | [], _ => .nil
  | x :: l, h => by
    obtain ⟨hx, hl⟩ := List.pairwise_cons.1 h
    rw [orderedPairs, List.pairwise_append, List.pairwise_map]
    refine ⟨hl.imp fun hlt => .right _ hlt, pairwise_orderedPairs hl, ?_⟩
    rintro p hp ⟨y, z⟩ hq
    obtain ⟨w, -, rfl⟩ := List.mem_map.1 hp
    exact .left _ _ (hx _ (mem_of_mem_orderedPairs hq).1)

end Pairs

/-- The elements with a result, each with its own. -/
theorem forall₂_filterMap {τ υ : Type} (f : τ → Option υ) : ∀ l : List τ,
    List.Forall₂ (fun x y => f x = some y) (l.filter fun x => (f x).isSome) (l.filterMap f)
  | [] => .nil
  | x :: l => by
    have ih := forall₂_filterMap f l
    rcases hx : f x with _ | y
    · rw [List.filter_cons_of_neg (by simp [hx]), List.filterMap_cons_none hx]
      exact ih
    · rw [List.filter_cons_of_pos (by simp [hx]), List.filterMap_cons_some hx]
      exact .cons hx ih

/-- As no two elements have one name, the names tell which elements a part of the list keeps. -/
theorem eq_filter_of_sublist {τ : Type} {name : τ → String} {sub l : List τ} (h : sub.Sublist l)
    (hl : (l.map name).Nodup) : sub = l.filter fun x => decide (name x ∈ sub.map name) := by
  induction h with
  | slnil => rfl
  | @cons sub l x hsub ih =>
    obtain ⟨hx, hl⟩ := List.nodup_cons.1 hl
    have hout : name x ∉ sub.map name := fun hc => hx ((hsub.map name).subset hc)
    rw [List.filter_cons_of_neg (by simpa using hout)]
    exact ih hl
  | @cons_cons sub l x hsub ih =>
    obtain ⟨hx, hl⟩ := List.nodup_cons.1 hl
    have hrest : (l.filter fun y => decide (name y ∈ (x :: sub).map name))
        = l.filter fun y => decide (name y ∈ sub.map name) := by
      refine List.filter_congr fun y hy => ?_
      have hne : name y ≠ name x := fun hc => hx (hc ▸ List.mem_map_of_mem hy)
      simp [hne]
    rw [List.filter_cons_of_pos (by simp), hrest, ← ih hl]

/-- The vehicle of this name inactive, any other one as it is. -/
def Track.deactivate {α : Type} (id : String) (t : Track α) : Track α :=
  if t.id = id then { t with active := false } else t

namespace CollisionAlert

variable {α : Type} [Scalar α] {now : Int64} {a b : Track α} {x : CollisionAlert α}

/-- The alert tells what the assessment finds of two active vehicles. -/
structure Reports (now : Int64) (a b : Track α) (x : CollisionAlert α) : Prop where
  firstActive : a.active = true
  secondActive : b.active = true
  found : Assessment.assess a b = some ⟨x.severity, x.encounter, x.timeToImpact, x.distance⟩
  firstId : x.firstId = a.id
  secondId : x.secondId = b.id
  timestamp : x.timestamp = now

theorem ofPair?_eq_some_iff : ofPair? now a b = some x ↔ Reports now a b x := by
  unfold ofPair?
  constructor
  · intro h
    split at h
    · rename_i hactive
      obtain ⟨r, hr, rfl⟩ := Option.map_eq_some_iff.1 h
      exact ⟨hactive.1, hactive.2, hr, rfl, rfl, rfl⟩
    · cases h
  · rintro ⟨ha, hb, hfound, hfirst, hsecond, hnow⟩
    rw [if_pos ⟨ha, hb⟩, hfound, Option.map_some, ← hfirst, ← hsecond, ← hnow]

theorem isSome_ofPair? : (ofPair? now a b).isSome = true
    ↔ a.active = true ∧ b.active = true ∧ (Assessment.assess a b).isSome = true := by
  unfold ofPair?
  split
  · rename_i hactive
    simp [hactive]
  · rename_i hactive
    simp only [Option.isSome_none, Bool.false_eq_true, false_iff]
    exact fun h => hactive ⟨h.1, h.2.1⟩

variable (now) (tracks : List (Track α))

theorem evaluate_eq_finRange : evaluate now tracks
    = (orderedPairs (List.finRange tracks.length)).filterMap
      fun p => ofPair? now tracks[p.1] tracks[p.2] := by
  have htracks : tracks = (List.finRange tracks.length).map (tracks[·]) := by
    rw [← List.ofFn_eq_map]
    exact (List.ofFn_get tracks).symm
  conv_lhs => rw [evaluate, htracks, orderedPairs_map, List.filterMap_map]
  rfl

/-- The alerts are those of the pairs of places that have one, in the order of the places. -/
theorem evaluate_places : ∃ places : List (Fin tracks.length × Fin tracks.length),
    places.Pairwise (Prod.Lex (· < ·) (· < ·))
      ∧ (∀ i j, (i, j) ∈ places ↔ i < j ∧ tracks[i].active = true ∧ tracks[j].active = true
        ∧ (Assessment.assess tracks[i] tracks[j]).isSome = true)
      ∧ List.Forall₂ (fun p x => Reports now tracks[p.1] tracks[p.2] x) places
        (evaluate now tracks) := by
  have hsorted := List.pairwise_lt_finRange tracks.length
  refine ⟨(orderedPairs (List.finRange tracks.length)).filter
    fun p => (ofPair? now tracks[p.1] tracks[p.2]).isSome, ?_, fun i j => ?_, ?_⟩
  · exact (pairwise_orderedPairs hsorted).filter _
  · simp only [List.mem_filter, mem_orderedPairs_iff hsorted, List.mem_finRange, true_and,
      isSome_ofPair?]
  · rw [evaluate_eq_finRange]
    refine (forall₂_filterMap _ _).imp fun p x h => ?_
    exact ofPair?_eq_some_iff.1 h

/-- Vehicles with names of their own are named together by one alert at most. -/
theorem evaluate_pairwise {tracks : List (Track α)} (h : (tracks.map (·.id)).Nodup) :
    (evaluate now tracks).Pairwise
      fun x y => s(x.firstId, x.secondId) ≠ s(y.firstId, y.secondId) := by
  have hpairs := nodup_orderedPairs h
  rw [orderedPairs_map, List.map_map, List.Nodup, List.pairwise_map] at hpairs
  refine List.pairwise_filterMap.2 (hpairs.imp fun {p q} hne x hx y hy => ?_)
  have hx := ofPair?_eq_some_iff.1 hx
  have hy := ofPair?_eq_some_iff.1 hy
  rw [hx.firstId, hx.secondId, hy.firstId, hy.secondId]
  exact hne

theorem evaluate_filter (keep : String → Bool) :
    evaluate now (tracks.filter fun t => keep t.id)
      = (evaluate now tracks).filter fun x => keep x.firstId && keep x.secondId := by
  rw [evaluate, evaluate, orderedPairs_filter, List.filterMap_filter, List.filter_filterMap]
  refine List.filterMap_congr fun p _ => ?_
  rcases hx : ofPair? now p.1 p.2 with _ | x
  · simp [hx]
  · have hreports := ofPair?_eq_some_iff.1 hx
    simp [hx, Option.filter, hreports.firstId, hreports.secondId]

theorem ofPair?_deactivate (id : String) :
    ofPair? now (a.deactivate id) (b.deactivate id)
      = (ofPair? now a b).filter fun x => decide (x.firstId ≠ id ∧ x.secondId ≠ id) := by
  have hoff {t : Track α} (ht : t.id = id) : ¬ (t.deactivate id).active = true := by
    simp [Track.deactivate, ht]
  have hsame {t : Track α} (ht : t.id ≠ id) : t.deactivate id = t := if_neg ht
  have hnone (hout : a.id = id ∨ b.id = id) :
      (ofPair? now a b).filter (fun x => decide (x.firstId ≠ id ∧ x.secondId ≠ id)) = none := by
    refine Option.filter_eq_none_iff.2 fun x hx => ?_
    have hreports := ofPair?_eq_some_iff.1 hx
    rw [decide_eq_true_iff, hreports.firstId, hreports.secondId]
    exact fun hc => hout.elim hc.1 hc.2
  by_cases ha : a.id = id
  · rw [hnone (.inl ha)]
    exact if_neg fun h => hoff ha h.1
  by_cases hb : b.id = id
  · rw [hnone (.inr hb)]
    exact if_neg fun h => hoff hb h.2
  · rw [hsame ha, hsame hb]
    rcases hx : ofPair? now a b with _ | x
    · rfl
    · have hreports := ofPair?_eq_some_iff.1 hx
      simp [Option.filter, hreports.firstId, hreports.secondId, ha, hb]

theorem evaluate_deactivate (id : String) : evaluate now (tracks.map (Track.deactivate id))
    = (evaluate now tracks).filter fun x => decide (x.firstId ≠ id ∧ x.secondId ≠ id) := by
  rw [evaluate, evaluate, orderedPairs_map, List.filterMap_map, List.filter_filterMap]
  exact List.filterMap_congr fun p _ => ofPair?_deactivate now id

/-- An evaluation of vehicles with names of their own reports each pair of places that has an alert,
once and in the order of the places. An evaluation of a part of the vehicles gives the alerts among
these, and one with a vehicle made inactive gives the alerts that do not name it. -/
theorem evaluate_exact {tracks : List (Track α)} (h : (tracks.map (·.id)).Nodup) :
    (∃ places : List (Fin tracks.length × Fin tracks.length),
      places.Pairwise (Prod.Lex (· < ·) (· < ·))
        ∧ (∀ i j, (i, j) ∈ places ↔ i < j ∧ tracks[i].active = true ∧ tracks[j].active = true
          ∧ (Assessment.assess tracks[i] tracks[j]).isSome = true)
        ∧ List.Forall₂ (fun p x => Reports now tracks[p.1] tracks[p.2] x) places
          (evaluate now tracks))
      ∧ (evaluate now tracks).Pairwise
        (fun x y => s(x.firstId, x.secondId) ≠ s(y.firstId, y.secondId))
      ∧ (∀ sub : List (Track α), sub.Sublist tracks → evaluate now sub
        = (evaluate now tracks).filter fun x =>
          decide (x.firstId ∈ sub.map (·.id)) && decide (x.secondId ∈ sub.map (·.id)))
      ∧ ∀ id, evaluate now (tracks.map (Track.deactivate id))
        = (evaluate now tracks).filter fun x => decide (x.firstId ≠ id ∧ x.secondId ≠ id) := by
  refine ⟨evaluate_places now tracks, evaluate_pairwise now h, fun sub hsub => ?_,
    evaluate_deactivate now tracks⟩
  have hpart := eq_filter_of_sublist hsub h
  conv_lhs => rw [hpart]
  exact evaluate_filter now tracks fun id => decide (id ∈ sub.map (·.id))

/-- Haul trucks 50 m apart are within their room. -/
theorem evaluate_exact_oncoming : ([hauler, oncomingHauler 50].map (·.id)).Nodup
    ∧ (∃ x ∈ evaluate 0 [hauler, oncomingHauler 50], Reports 0 hauler (oncomingHauler 50) x)
    ∧ ∀ x ∈ evaluate 0 ([hauler, oncomingHauler 50].map (Track.deactivate "south")),
      x.secondId ≠ "south" := by
  have hnodup : ([hauler, oncomingHauler 50].map (·.id)).Nodup := by
    show (["north", "south"] : List String).Nodup
    decide
  have hdistance := distance_oncomingHauler (show (0 : ℝ) ≤ 50 by norm_num)
  have hnow : hauler.position.distance (oncomingHauler 50).position
      < hauler.combinedRadius (oncomingHauler 50) := by
    rw [hdistance, combinedRadius_oncomingHauler]
    norm_num
  have hnear : hauler.position.distance (oncomingHauler 50).position
      ≤ Assessment.cutoffDistance := by
    rw [hdistance, Assessment.cutoffDistance]
    norm_num
  have hsome := Assessment.isSome_assess_of_breaches (.inl moving_hauler) hnear (.inl hnow)
    fun h => h.apart hnow
  obtain ⟨⟨places, -, hmem, hall⟩, -, -, hoff⟩ := evaluate_exact 0 hnodup
  refine ⟨hnodup, ?_, fun x hx => ?_⟩
  · have hplace : ((0 : Fin 2), (1 : Fin 2)) ∈ places :=
      (hmem 0 1).2 ⟨by decide, rfl, rfl, hsome⟩
    obtain ⟨n, hn, hget⟩ := List.mem_iff_getElem.1 hplace
    have hreports := hall.get hn (hall.length_eq ▸ hn)
    rw [List.get_eq_getElem, hget] at hreports
    exact ⟨_, List.getElem_mem _, hreports⟩
  · rw [hoff "south", List.mem_filter, decide_eq_true_iff] at hx
    exact hx.2.2

end CollisionAlert

end PitFleet
