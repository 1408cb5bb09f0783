import Mathlib
import PitFleet.Proofs.Proximity.Divergence
import PitFleet.Proofs.Scalar.Mirror

/-!
# Two readings of a distance

A distance is read with the cosine of the first latitude, so a pair has two readings of its
separations, one for each order. They are one if both latitudes have one cosine
(`Position.distance_comm`), and little apart where the latitudes are
(`Position.abs_distance_sub_le`). A truck on the equator and one beside its way have two readings
that are easily told (`reading_eastbound`, `reading_bystander`).
-/

namespace PitFleet

open Approach

section Readings

variable {α : Type} [Scalar α]

/-- Where a track is now and at each sample. -/
def Track.place (a : Track α) : ℕ → Position α
  | 0 => a.position
  | k + 1 => a.predict (sampleTime (k + 1))

/-- The separations of now and of each sample as they are read in this order. -/
def Track.reading (a b : Track α) (k : ℕ) : α :=
  (a.place k).distance (b.place k)

theorem Track.samples_eq_reading (a b : Track α) :
    samples (a.reading b 0) (a.separation b) = a.reading b := by
  funext k
  cases k <;> rfl

/-- One cosine narrows the longitudes at both positions. -/
def Position.SameNarrowing (p q : Position α) : Prop :=
  Scalar.cos (Scalar.radians p.latitude) = Scalar.cos (Scalar.radians q.latitude)

variable [MirroredScalar α]

theorem Position.distance_comm {p q : Position α} (h : p.SameNarrowing q) :
    p.distance q = q.distance p := by
  have hnorth := MirroredScalar.abs_sub_comm q.latitude p.latitude
  have heast := MirroredScalar.abs_sub_comm q.longitude p.longitude
  unfold Position.SameNarrowing at h
  simp only [Position.distance, Scalar.radians] at h ⊢
  rw [h]
  refine MirroredScalar.hypot_abs ?_ ?_
  · exact MirroredScalar.abs_mul (MirroredScalar.abs_mul (MirroredScalar.abs_mul heast _) _) _
  · exact MirroredScalar.abs_mul (MirroredScalar.abs_mul hnorth _) _

end Readings

section Exact

/-- In exact arithmetic the readings are apart by no more than the longitudes are when they are
narrowed by the difference of the cosines. -/
theorem Position.abs_distance_sub_le (p q : Position ℝ) :
    |p.distance q - q.distance p| ≤ earthRadius * |Scalar.radians (q.longitude - p.longitude)|
      * |Real.cos (Scalar.radians p.latitude) - Real.cos (Scalar.radians q.latitude)| := by
  let east (c : ℝ) : ℝ := Scalar.radians (q.longitude - p.longitude) * c * earthRadius
  let north : ℝ := Scalar.radians (q.latitude - p.latitude) * earthRadius
  have hthere : p.distance q
      = ‖(east (Real.cos (Scalar.radians p.latitude)) : ℂ) + north * Complex.I‖ := by
    rw [Complex.norm_add_mul_I]
    rfl
  have hback : q.distance p
      = ‖(east (Real.cos (Scalar.radians q.latitude)) : ℂ) + north * Complex.I‖ := by
    have hcos : (Scalar.cos : ℝ → ℝ) = Real.cos := rfl
    rw [Complex.norm_add_mul_I]
    show √(_ ^ 2 + _ ^ 2) = _
    simp only [east, north, radians_real, hcos]
    congr 1
    ring
  have heast (c d : ℝ) : |east c - east d|
      = earthRadius * |Scalar.radians (q.longitude - p.longitude)| * |c - d| := by
    have hearth : (0 : ℝ) ≤ earthRadius := by rw [earthRadius_real]; norm_num
    have hdiff : east c - east d
        = earthRadius * Scalar.radians (q.longitude - p.longitude) * (c - d) := by
      simp only [east]
      ring
    rw [hdiff, abs_mul, abs_mul, abs_of_nonneg hearth]
  rw [hthere, hback, ← heast]
  refine (abs_norm_sub_norm_le _ _).trans (le_of_eq ?_)
  rw [add_sub_add_right_eq_sub, ← Complex.ofReal_sub, Complex.norm_real, Real.norm_eq_abs]

/-- The position so many metres north and east of where the equator meets the zero meridian. -/
noncomputable def grid (north east : ℝ) : Position ℝ :=
  (⟨0, 0, 0⟩ : Position ℝ).offset north east

theorem grid_eq (north east : ℝ) : grid north east
    = ⟨north / earthRadius * (180 / Real.pi), east / earthRadius * (180 / Real.pi), 0⟩ := by
  have hcos : Scalar.cos (Scalar.radians (0 : ℝ)) = 1 := by
    rw [radians_real, zero_mul]
    exact Real.cos_zero
  simp only [grid, Position.offset, hcos, degrees_real, mul_one, zero_add]

theorem distance_grid (m x n y : ℝ) :
    (grid m x).distance (grid n y)
      = √(((y - x) * Real.cos (m / earthRadius)) ^ 2 + (n - m) ^ 2) := by
  have hpi : Real.pi ≠ 0 := Real.pi_ne_zero
  have hearth := earthRadius_ne_zero_real
  have hmetres (u v : ℝ) : Scalar.radians (v / earthRadius * (180 / Real.pi)
      - u / earthRadius * (180 / Real.pi)) * earthRadius = v - u := by
    rw [radians_real]
    field_simp
  have hangle : Scalar.radians (m / earthRadius * (180 / Real.pi)) = m / earthRadius := by
    rw [radians_real]
    field_simp
  rw [grid_eq, grid_eq]
  simp only [Position.distance, hangle, hmetres, mul_right_comm _ _ (earthRadius : ℝ)]
  rfl

theorem displace_east (p : Position ℝ) (m : ℝ) : p.displace m 90 = p.offset 0 m := by
  have hangle : Scalar.radians (90 : ℝ) = Real.pi / 2 := by
    rw [radians_real]
    ring
  have hcos : Scalar.cos (Scalar.radians (90 : ℝ)) = 0 := by
    rw [hangle]
    exact Real.cos_pi_div_two
  have hsin : Scalar.sin (Scalar.radians (90 : ℝ)) = 1 := by
    rw [hangle]
    exact Real.sin_pi_div_two
  rw [Position.displace, hcos, hsin, mul_zero, mul_one]

/-- A haul truck that goes east along the equator at 10 m/s. -/
noncomputable def eastbound : Track ℝ :=
  (Snapshot.new "east" .haulTruck (grid 0 0) 36.0 90.0).track

noncomputable def bystander (north east : ℝ) : Track ℝ :=
  (Snapshot.new "parked" .haulTruck (grid north east) 0 0).track

theorem place_eastbound (k : ℕ) : eastbound.place k = grid 0 (5 * k) := by
  cases k with
  | zero => simp [eastbound, Track.place, Snapshot.track, Snapshot.new]
  | succ k =>
    have hdrive : ¬ (36 * kmh : ℝ) < negligibleSpeed := by
      rw [kmh_real, negligibleSpeed]
      norm_num
    have hspeed : (36.0 : ℝ) = 36 := by norm_num
    have hheading : (90.0 : ℝ) = 90 := by norm_num
    have hzero : grid 0 0 = ⟨0, 0, 0⟩ := by
      rw [grid_eq]
      simp
    have hmetres : 36 * kmh * (sampleTime (k + 1) : ℝ) = 5 * ((k + 1 : ℕ) : ℝ) := by
      rw [kmh_real, sampleTime_real]
      ring
    show (grid 0 0).project 36.0 90.0 (sampleTime (k + 1)) = _
    rw [hspeed, hheading, Position.project, if_neg hdrive, displace_east, hmetres, hzero]
    rfl

theorem place_bystander (north east : ℝ) : ∀ k, (bystander north east).place k = grid north east
  | 0 => rfl
  | k + 1 => by
    have hrest : (0 * kmh : ℝ) < negligibleSpeed := by
      rw [negligibleSpeed]
      norm_num
    show (grid north east).project 0 0 (sampleTime (k + 1)) = _
    rw [Position.project, if_pos hrest]

theorem reading_eastbound (north east : ℝ) (k : ℕ) :
    eastbound.reading (bystander north east) k = √((east - 5 * k) ^ 2 + north ^ 2) := by
  rw [Track.reading, place_eastbound, place_bystander, distance_grid, zero_div, Real.cos_zero,
    mul_one, sub_zero]

theorem reading_bystander (north east : ℝ) (k : ℕ) :
    (bystander north east).reading eastbound k
      = √(((east - 5 * k) * Real.cos (north / earthRadius)) ^ 2 + north ^ 2) := by
  rw [Track.reading, place_eastbound, place_bystander, distance_grid]
  congr 1
  ring

end Exact

end PitFleet
