import PitFleet.Fault

/-!
# Scalars

The numbers that the model computes with. Every rule of motion and of proximity is written over
`Scalar`, so that one definition runs on doubles and can be read over the reals.
-/

namespace PitFleet

/-- The operations that the model needs of a number type; nothing is said of their laws. -/
class Scalar (α : Type) extends Add α, Sub α, Mul α, Div α, Neg α, LT α, LE α, OfScientific α where
  decLt : DecidableLT α
  decLe : DecidableLE α
  isNaN : α → Bool
  isFinite : α → Bool
  abs : α → α
  sin : α → α
  cos : α → α
  /-- The angle of the vector whose second coordinate is the first argument. -/
  atan2 : α → α → α
  hypot : α → α → α
  /-- The remainder of the quotient cut off toward zero; it takes the sign of the dividend. -/
  rem : α → α → α
  pi : α

namespace Scalar

attribute [reducible, instance] decLt decLe

variable {α : Type} [Scalar α]

/-- The lesser; what is no number gives way, and a tie keeps the right one. -/
def min (x y : α) : α :=
  if isNaN y = true ∨ x < y then x else y

/-- The greater; what is no number gives way, and a tie keeps the right one, so that a zero below
zero gives way to zero on the right. -/
def max (x y : α) : α :=
  if isNaN y = true ∨ y < x then x else y

def clamp (lo hi x : α) : Except Fault α :=
  if lo ≤ hi then
    .ok (if x < lo then lo else if hi < x then hi else x)
  else
    .error .emptyRange

def radians (x : α) : α :=
  x * (pi / 180.0)

def degrees (x : α) : α :=
  x * (180.0 / pi)

/-- A span of time that moves the model on: finite and above zero. -/
def IsStep (dt : α) : Prop :=
  isFinite dt = true ∧ ¬ dt ≤ 0.0

instance (dt : α) : Decidable (IsStep dt) :=
  inferInstanceAs (Decidable (_ ∧ _))

end Scalar

end PitFleet
