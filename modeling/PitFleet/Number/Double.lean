import PitFleet.Scalar

/-!
# Doubles as exact numbers

A finite double is `± m * 2 ^ e`. `decode` takes one apart and `round` builds the nearest one from
any such product, so that remainders and roots are computed on whole numbers and rounded once.
-/

namespace PitFleet.Double

/-- What a double stands for. -/
inductive Value
  | nan
  | infinite (negative : Bool)
  /-- The number `± mantissa * 2 ^ exponent`. -/
  | finite (negative : Bool) (mantissa : Nat) (exponent : Int)

/-- The bits of a double are its sign, its place in 11 bits and its field in 52. -/
def fieldSize : Nat := 0x10000000000000

/-- The place of the infinities and of what is no number. -/
def lastPlace : Nat := 2047

def signSize : Nat := (lastPlace + 1) * fieldSize

/-- The exponent of the last place of the smallest doubles. -/
def leastExponent : Int := -1074

def decode (x : Float) : Value :=
  let bits := x.toBits.toNat
  let negative := signSize ≤ bits
  let place := bits / fieldSize % (lastPlace + 1)
  let field := bits % fieldSize
  if place = lastPlace then
    if field = 0 then .infinite negative else .nan
  else if place = 0 then
    .finite negative field leastExponent
  else
    .finite negative (fieldSize + field) (leastExponent + (place - 1 : Nat))

/-- The quotient to the nearest whole number, a half to the even neighbour. -/
def roundDiv (n d : Nat) : Nat :=
  let q := n / d
  let r := n % d
  if 2 * r < d then q else if d < 2 * r then q + 1 else q + q % 2

/-- The double nearest to `± m * 2 ^ e`, of two nearest the one with an even mantissa; beyond the
largest double it is infinite. -/
def round (negative : Bool) (m : Nat) (e : Int) : Float :=
  let q := if m = 0 then leastExponent else max (e + m.log2 - 52) leastExponent
  let kept := if q ≤ e then m <<< (e - q).toNat else roundDiv m (1 <<< (q - e).toNat)
  let bits := min ((q - leastExponent).toNat * fieldSize + kept) (lastPlace * fieldSize)
  Float.ofBits (UInt64.ofNat (if negative then signSize + bits else bits))

def nan : Float := 0.0 / 0.0

/-- Whole multiples of the finer of the two last places. -/
def align (m₁ : Nat) (e₁ : Int) (m₂ : Nat) (e₂ : Int) : Nat × Nat × Int :=
  let e := min e₁ e₂
  (m₁ <<< (e₁ - e).toNat, m₂ <<< (e₂ - e).toNat, e)

/-- The remainder is exact: both numbers are whole multiples of one place. -/
def rem (x y : Float) : Float :=
  match decode x, decode y with
  | .finite negative m₁ e₁, .finite _ m₂ e₂ =>
    if m₂ = 0 then nan
    else
      let (a, b, e) := align m₁ e₁ m₂ e₂
      round negative (a % b) e
  | .finite .., .infinite _ => x
  | _, _ => nan

/-- Newton's steps downward from `x`, which is at least the root of `n`. -/
def rootFrom (n x : Nat) : Nat :=
  let y := (x + n / x) / 2
  if y < x then rootFrom n y else x
termination_by x

/-- The whole part of the square root. -/
def root (n : Nat) : Nat :=
  if n = 0 then 0 else rootFrom n (1 <<< ((n.log2 + 2) / 2))

/-- The double nearest to the length of the vector: the sum of squares is exact, its root is cut off
far below the last place, and an odd digit marks what was cut off. An infinite side decides even
against a side that is no number. -/
def hypot (x y : Float) : Float :=
  match decode x, decode y with
  | .infinite _, _ => x.abs
  | _, .infinite _ => y.abs
  | .finite _ m₁ e₁, .finite _ m₂ e₂ =>
    let (a, b, e) := align m₁ e₁ m₂ e₂
    let n := (a * a + b * b) <<< 112
    let r := root n
    round false (2 * r + (if r * r = n then 0 else 1)) (e - 57)
  | _, _ => nan

end PitFleet.Double

namespace PitFleet

instance : Scalar Float where
  decLt := inferInstance
  decLe := inferInstance
  isNaN := Float.isNaN
  isFinite := Float.isFinite
  abs := Float.abs
  sin := Float.sin
  cos := Float.cos
  atan2 := Float.atan2
  hypot := Double.hypot
  rem := Double.rem
  pi := 3.141592653589793

end PitFleet
