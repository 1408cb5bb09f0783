import Mathlib
import PitFleet.Proofs.Proximity.Evaluation
import PitFleet.Proofs.Vehicle.Operations

/-!
# Snapshots in place of vehicles

A snapshot copies what its vehicle shows and takes its room from the category, so that the two have
one track exactly if the vehicle's own room is that of its category (`Vehicle.track_snapshot_iff`).
A vehicle that was made new has the figures of its category, whatever it was asked for since
(`Vehicle.History.exists_vehicle`), and an evaluation cannot tell such vehicles from their
snapshots.
-/

namespace PitFleet

variable {α : Type} [Scalar α]

namespace Vehicle

theorem track_snapshot_iff {v : Vehicle α} :
    v.snapshot.track = v.track ↔ v.spec.safetyRadius = v.category.spec.safetyRadius := by
  refine ⟨fun h => ?_, fun h => ?_⟩
  · exact (congrArg Track.safetyRadius h).symm
  · -- Both predict by one projection of the same position, speed and heading.
    have hpredict : v.snapshot.predict = v.predict := rfl
    have hroom : v.snapshot.safetyRadius = v.spec.safetyRadius := h.symm
    rw [Snapshot.track, track, hpredict, hroom]
    rfl

/-- How a vehicle came about: it was made new and then asked for one thing after the other. -/
structure History (α : Type) where
  id : String
  category : Category
  start : Position α
  operations : List (Operation α)

namespace History

def vehicle (h : History α) : Except Fault (Vehicle α) :=
  (Vehicle.new h.id h.category h.start).performAll h.operations

variable [OrderedScalar α]

/-- The vehicle always comes about, with the figures of its category. -/
theorem exists_vehicle (h : History α) :
    ∃ v, h.vehicle = .ok v ∧ v.spec = v.category.spec := by
  have hbuild := sameBuild_foldl h.operations (Vehicle.new h.id h.category h.start)
  refine ⟨_, performAll_eq h.operations h.category.spec_bounded, ?_⟩
  rw [hbuild.spec, hbuild.category]
  rfl

theorem exists_vehicles : ∀ hs : List (History α),
    ∃ vs, hs.mapM vehicle = .ok vs ∧ ∀ v ∈ vs, v.spec = v.category.spec
  | [] => ⟨[], rfl, List.forall_mem_nil _⟩
  | h :: hs => by
    obtain ⟨v, hv, hspec⟩ := h.exists_vehicle
    obtain ⟨vs, hvs, hspecs⟩ := exists_vehicles hs
    refine ⟨v :: vs, ?_, List.forall_mem_cons.2 ⟨hspec, hspecs⟩⟩
    rw [List.mapM_cons, hv, hvs]
    rfl

end History

end Vehicle

namespace CollisionAlert

theorem evaluate_snapshots {vs : List (Vehicle α)} (h : ∀ v ∈ vs, v.spec = v.category.spec)
    (now : Int64) :
    evaluate now (vs.map fun v => v.snapshot.track) = evaluate now (vs.map Vehicle.track) := by
  congr 1
  refine List.map_congr_left fun v hv => Vehicle.track_snapshot_iff.2 ?_
  rw [h v hv]

/-- Vehicles that were made new and changed in any way raise the alerts that their snapshots do. -/
theorem evaluate_interchangeable [OrderedScalar α] (hs : List (Vehicle.History α)) (now : Int64) :
    ∃ vs, hs.mapM Vehicle.History.vehicle = .ok vs
      ∧ evaluate now (vs.map Vehicle.track) = evaluate now (vs.map fun v => v.snapshot.track) := by
  obtain ⟨vs, hvs, hspecs⟩ := Vehicle.History.exists_vehicles hs
  exact ⟨vs, hvs, (evaluate_snapshots hspecs now).symm⟩

/-- Two haul trucks at one place, of which one is set moving and turned. -/
noncomputable def together : List (Vehicle.History ℝ) :=
  [⟨"HT-1", .haulTruck, meridian 0, [.setSpeed 36.0, .setHeading 90.0]⟩,
    ⟨"HT-2", .haulTruck, meridian 0, []⟩]

theorem vehicles_together : together.mapM Vehicle.History.vehicle
    = .ok [((Vehicle.new "HT-1" .haulTruck (meridian 0)).drive 36.0).setHeading 90.0,
      Vehicle.new "HT-2" .haulTruck (meridian 0)] := by
  have hfirst : (⟨"HT-1", .haulTruck, meridian 0, [.setSpeed 36.0, .setHeading 90.0]⟩ :
      Vehicle.History ℝ).vehicle
        = .ok (((Vehicle.new "HT-1" .haulTruck (meridian 0)).drive 36.0).setHeading 90.0) :=
    Vehicle.performAll_eq _ (Category.spec_bounded .haulTruck)
  rw [together, List.mapM_cons, hfirst]
  rfl

/-- The two are within their room, so there is an alert to be raised. -/
theorem evaluate_interchangeable_together : ∃ vs,
    together.mapM Vehicle.History.vehicle = .ok vs ∧ evaluate 0 (vs.map Vehicle.track) ≠ []
      ∧ evaluate 0 (vs.map Vehicle.track) = evaluate 0 (vs.map fun v => v.snapshot.track) := by
  obtain ⟨vs, hvs, hsame⟩ := evaluate_interchangeable together 0
  refine ⟨vs, hvs, ?_, hsame⟩
  obtain rfl := Except.ok.inj (hvs.symm.trans vehicles_together)
  set a := (((Vehicle.new "HT-1" .haulTruck (meridian 0)).drive 36.0).setHeading 90.0).track
  set b : Track ℝ := (Vehicle.new "HT-2" .haulTruck (meridian 0)).track
  have hmoves : Assessment.movingSpeed < a.speed := by
    show (1.0 : ℝ) < Vehicle.limited 45.0 36.0
    norm_num [Vehicle.limited, Scalar.isNaN]
  have hdistance : a.position.distance b.position = 0 := by
    show (meridian 0).distance (meridian 0) = 0
    rw [distance_meridian, sub_self, abs_zero]
  have hroom : a.position.distance b.position < a.combinedRadius b := by
    rw [hdistance]
    show (0 : ℝ) < 30.0 + 30.0
    norm_num
  have hnear : a.position.distance b.position ≤ Assessment.cutoffDistance := by
    rw [hdistance, Assessment.cutoffDistance]
    norm_num
  have hsome := Assessment.isSome_assess_of_breaches (.inl hmoves) hnear (.inl hroom)
    fun h => h.apart hroom
  obtain ⟨x, hx⟩ := Option.isSome_iff_exists.1 (isSome_ofPair?.2 ⟨rfl, rfl, hsome⟩)
  exact List.ne_nil_of_mem (List.mem_filterMap.2 ⟨(a, b), List.mem_cons_self, hx⟩)

end CollisionAlert

end PitFleet
