import PitFleet.Scalar

/-!
# Headings

Directions in degrees clockwise from north, compared on the circle.
-/

namespace PitFleet.Heading

variable {α : Type} [Scalar α]

/-- The remainder of `x` by a full turn that is not below zero. -/
def turnRemainder (x : α) : α :=
  let r := Scalar.rem x 360.0
  if r < 0.0 then r + Scalar.abs 360.0 else r

/-- The same direction within one turn. The remainder of a tiny angle below zero rounds up to a
whole turn, which is north again. -/
def normalize (x : α) : α :=
  let r := turnRemainder x
  if 360.0 ≤ r then 0.0 else r

/-- The angle between two headings, at most half a turn. -/
def difference (x y : α) : α :=
  let d := Scalar.abs (normalize x - normalize y)
  if 180.0 < d then 360.0 - d else d

end PitFleet.Heading
