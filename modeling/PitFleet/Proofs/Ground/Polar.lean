import Mathlib
import PitFleet.Proofs.Ground.Circle
import PitFleet.Proofs.Number.Remainder

/-!
# Distance and bearing as polar coordinates

Seen from a position another one is so many metres to the north and to the east of it
(`Position.northing`, `Position.easting`). Where longitudes do not vanish, an offset by these leads
from the one to the other and back (`offset_toward`, `northing_offset`, `easting_offset`). In exact
arithmetic distance and bearing are the polar coordinates of that vector, measured from north, so a
displacement by them leads there too (`displace_inverts`).
-/

namespace PitFleet

section Turning

/-- An angle and its normal heading are whole turns apart. -/
theorem exists_radians_normalize (x : ℝ) : ∃ k : ℤ,
    Scalar.radians (Heading.normalize x) = Scalar.radians x - k * (2 * Real.pi) := by
  refine ⟨⌊x / 360⌋, ?_⟩
  rw [Heading.normalize_real, radians_real, radians_real]
  ring

theorem cos_normalize_degrees (x : ℝ) :
    Real.cos (Scalar.radians (Heading.normalize (Scalar.degrees x))) = Real.cos x := by
  obtain ⟨k, hk⟩ := exists_radians_normalize (Scalar.degrees x)
  rw [hk, Real.cos_sub_int_mul_two_pi, radians_degrees_real]

theorem sin_normalize_degrees (x : ℝ) :
    Real.sin (Scalar.radians (Heading.normalize (Scalar.degrees x))) = Real.sin x := by
  obtain ⟨k, hk⟩ := exists_radians_normalize (Scalar.degrees x)
  rw [hk, Real.sin_sub_int_mul_two_pi, radians_degrees_real]

theorem proper_normalize_real (x : ℝ) : Heading.Proper (Heading.normalize x) := by
  have hmem := Heading.normalize_real_mem x
  unfold Heading.Proper
  norm_num
  exact hmem

end Turning

section Polar

variable (north east : ℝ)

theorem hypot_real : Scalar.hypot east north = √(east ^ 2 + north ^ 2) :=
  rfl

/-- The heading of the vector, clockwise from north. -/
noncomputable def Heading.ofVector : ℝ :=
  normalize (Scalar.degrees (Scalar.atan2 east north))

theorem norm_vector : ‖(⟨north, east⟩ : ℂ)‖ = Scalar.hypot east north := by
  rw [hypot_real, Complex.norm_def, Complex.normSq_mk]
  ring_nf

theorem hypot_mul_cos_ofVector :
    Scalar.hypot east north * Real.cos (Scalar.radians (Heading.ofVector north east)) = north := by
  rw [Heading.ofVector, cos_normalize_degrees, ← norm_vector]
  exact Complex.norm_mul_cos_arg ⟨north, east⟩

theorem hypot_mul_sin_ofVector :
    Scalar.hypot east north * Real.sin (Scalar.radians (Heading.ofVector north east)) = east := by
  rw [Heading.ofVector, sin_normalize_degrees, ← norm_vector]
  exact Complex.norm_mul_sin_arg ⟨north, east⟩

/-- The length of the vector does not matter. -/
theorem ofVector_scale {c : ℝ} (hc : 0 < c) :
    Heading.ofVector (c * north) (c * east) = Heading.ofVector north east := by
  have hangle : (Scalar.atan2 (c * east) (c * north) : ℝ) = Scalar.atan2 east north := by
    have hscale : (⟨c * north, c * east⟩ : ℂ) = c * ⟨north, east⟩ := by
      apply Complex.ext <;> simp
    show Complex.arg ⟨c * north, c * east⟩ = Complex.arg ⟨north, east⟩
    rw [hscale, Complex.arg_real_mul _ hc]
  rw [Heading.ofVector, Heading.ofVector, hangle]

end Polar

namespace Position

variable {α : Type} [Scalar α]

def narrowing (p : Position α) : α :=
  Scalar.cos (Scalar.radians p.latitude)

/-- How far `q` is to the north of `p`, in metres. -/
def northing (p q : Position α) : α :=
  Scalar.radians (q.latitude - p.latitude) * earthRadius

/-- How far `q` is to the east of `p`, in metres. -/
def easting (p q : Position α) : α :=
  Scalar.radians (q.longitude - p.longitude) * p.narrowing * earthRadius

theorem distance_eq_hypot (p q : Position α) :
    p.distance q = Scalar.hypot (p.easting q) (p.northing q) :=
  rfl

variable (p q : Position ℝ)

theorem bearing_eq_ofVector : p.bearing q = Heading.ofVector (p.northing q) (p.easting q) := by
  have hmetres : 0 < Real.pi / 180 * earthRadius := by
    rw [earthRadius_real]
    positivity
  have hnorth : p.northing q = Real.pi / 180 * earthRadius * (q.latitude - p.latitude) := by
    rw [northing, radians_real]
    ring
  have heast : p.easting q
      = Real.pi / 180 * earthRadius * ((q.longitude - p.longitude) * p.narrowing) := by
    rw [easting, radians_real]
    ring
  rw [hnorth, heast, ofVector_scale _ _ hmetres]
  rfl

theorem displace_ofVector (north east : ℝ) :
    p.displace (Scalar.hypot east north) (Heading.ofVector north east) = p.offset north east := by
  show p.offset (Scalar.hypot east north * Real.cos (Scalar.radians (Heading.ofVector north east)))
    (Scalar.hypot east north * Real.sin (Scalar.radians (Heading.ofVector north east))) = _
  rw [hypot_mul_cos_ofVector, hypot_mul_sin_ofVector]

variable {p}

theorem northing_offset (north east : ℝ) : p.northing (p.offset north east) = north := by
  have hearth := earthRadius_ne_zero_real
  have hnorth : (p.offset north east).latitude - p.latitude
      = Scalar.degrees (north / earthRadius) := add_sub_cancel_left ..
  rw [northing, hnorth, radians_degrees_real, div_mul_cancel₀ _ hearth]

section Narrowing

variable (h : p.narrowing ≠ 0)
include h

theorem easting_offset (north east : ℝ) : p.easting (p.offset north east) = east := by
  have hearth := earthRadius_ne_zero_real
  have heast : (p.offset north east).longitude - p.longitude
      = Scalar.degrees (east / (earthRadius * p.narrowing)) := add_sub_cancel_left ..
  rw [easting, heast, radians_degrees_real]
  field_simp

theorem offset_toward : p.offset (p.northing q) (p.easting q)
    = { q with altitude := p.altitude } := by
  have hearth := earthRadius_ne_zero_real
  have hpi := Real.pi_ne_zero
  have hnorth : p.latitude + Scalar.degrees (p.northing q / earthRadius) = q.latitude := by
    rw [northing, mul_div_cancel_right₀ _ hearth, degrees_radians_real, add_sub_cancel]
  have heast : p.longitude + Scalar.degrees (p.easting q / (earthRadius * p.narrowing))
      = q.longitude := by
    rw [easting, mul_assoc, mul_comm earthRadius, mul_div_cancel_right₀ _ (mul_ne_zero h hearth),
      degrees_radians_real, add_sub_cancel]
  show (⟨p.latitude + Scalar.degrees (p.northing q / earthRadius),
    p.longitude + Scalar.degrees (p.easting q / (earthRadius * p.narrowing)), p.altitude⟩ :
      Position ℝ) = _
  rw [hnorth, heast]

/-- A displacement undoes the reading of distance and bearing, and they undo an offset. -/
theorem displace_inverts : (∀ q : Position ℝ,
      p.displace (p.distance q) (p.bearing q) = { q with altitude := p.altitude })
    ∧ ∀ north east : ℝ, p.distance (p.offset north east) = √(north ^ 2 + east ^ 2)
      ∧ p.bearing (p.offset north east)
        = Heading.normalize (Scalar.degrees (Scalar.atan2 east north))
      ∧ Heading.Proper (p.bearing (p.offset north east)) := by
  refine ⟨fun q => ?_, fun north east => ?_⟩
  · rw [distance_eq_hypot, bearing_eq_ofVector, displace_ofVector, offset_toward q h]
  · have hbearing : p.bearing (p.offset north east) = Heading.ofVector north east := by
      rw [bearing_eq_ofVector, northing_offset, easting_offset h]
    refine ⟨?_, hbearing, proper_normalize_real _⟩
    rw [distance_eq_hypot, northing_offset, easting_offset h, hypot_real, add_comm]

end Narrowing

/-- Half a turn of latitude away, where east is west. -/
noncomputable def farSide : Position ℝ :=
  ⟨180.0, 10.0, 820.0⟩

theorem narrowing_farSide : farSide.narrowing = -1 := by
  have hhalf : farSide.latitude = 180 := by
    rw [farSide]
    norm_num
  rw [narrowing, hhalf, radians_half_turn]
  exact Real.cos_pi

theorem displace_inverts_farSide : farSide.narrowing ≠ 0
    ∧ farSide.displace (farSide.distance ⟨179, 12, 0⟩) (farSide.bearing ⟨179, 12, 0⟩)
      = ⟨179, 12, farSide.altitude⟩
    ∧ farSide.distance (farSide.offset (-3) 4) = 5 := by
  have hne : farSide.narrowing ≠ 0 := by
    rw [narrowing_farSide]
    norm_num
  obtain ⟨htoward, haway⟩ := displace_inverts hne
  refine ⟨hne, htoward ⟨179, 12, 0⟩, ?_⟩
  rw [(haway (-3) 4).1, Real.sqrt_eq_iff_mul_self_eq (by positivity) (by norm_num)]
  norm_num

end Position

end PitFleet
