import PitFleet.Number.Shortest

/-!
# Number texts

The ways in which doubles are written: with their shortest digits, in one of several styles, or
with a fixed number of places.
-/

namespace PitFleet

def padLeft (width : Nat) (s : String) : String :=
  "".pushn ' ' (width - s.length) ++ s

def padRight (width : Nat) (s : String) : String :=
  s.pushn ' ' (width - s.length)

/-- How a double is written with its shortest digits. -/
structure NumberStyle where
  /-- Whole numbers end in `.0`. -/
  pointZero : Bool
  /-- The exponents of the leading digit for which no exponent is written; all if there are no
  bounds. -/
  positional : Option (Int × Int)
  /-- Which last digit is taken for a number that lies halfway. -/
  tie : Shortest.Tie
  nan : String
  infinity : String
  negativeInfinity : String

namespace NumberStyle

/-- Whole numbers are marked by `.0`, exponents are written from `1e16` on and below `1e-5`, and
what is no finite number is `null`. -/
def json : NumberStyle where
  pointZero := true
  positional := some (-5, 15)
  tie := .even
  nan := "null"
  infinity := "null"
  negativeInfinity := "null"

/-- Whole numbers are marked by `.0` and exponents are never written. -/
def toml : NumberStyle where
  pointZero := true
  positional := none
  tie := .up
  nan := "nan"
  infinity := "inf"
  negativeInfinity := "-inf"

/-- Neither `.0` nor exponents are ever written. -/
def plain : NumberStyle where
  pointZero := false
  positional := none
  tie := .up
  nan := "NaN"
  infinity := "inf"
  negativeInfinity := "-inf"

/-- Digits with a point after the first `whole` of them, zeros filled in on either side. -/
def point (style : NumberStyle) (digits : String) (whole : Int) : String :=
  let count : Int := digits.length
  if whole ≤ 0 then "0." ++ "".pushn '0' (-whole).toNat ++ digits
  else if count ≤ whole then
    digits.pushn '0' (whole - count).toNat ++ (if style.pointZero then ".0" else "")
  else
    String.ofList (digits.toList.take whole.toNat) ++ "."
      ++ String.ofList (digits.toList.drop whole.toNat)

/-- One digit, the others behind a point, and the exponent with its sign. -/
def scientific (digits : String) (exponent : Int) : String :=
  let first := String.ofList (digits.toList.take 1)
  let others := String.ofList (digits.toList.drop 1)
  first ++ (if others.isEmpty then "" else "." ++ others) ++ "e"
    ++ (if exponent < 0 then "" else "+") ++ toString exponent

def unsigned (style : NumberStyle) (m : Nat) (e : Int) : String :=
  if m = 0 then style.point "0" 1
  else
    let d := Shortest.digits style.tie m e
    let digits := toString d.digits
    let leading := d.exponent + digits.length - 1
    match style.positional with
    | some (least, greatest) =>
      if least ≤ leading ∧ leading ≤ greatest then style.point digits (leading + 1)
      else scientific digits leading
    | none => style.point digits (leading + 1)

def write (style : NumberStyle) (x : Float) : String :=
  match Double.decode x with
  | .nan => style.nan
  | .infinite false => style.infinity
  | .infinite true => style.negativeInfinity
  | .finite negative m e => (if negative then "-" else "") ++ style.unsigned m e

end NumberStyle

/-- `m * 2 ^ e` with `places` digits behind the point, a half to the even neighbour. -/
def fixedDigits (places m : Nat) (e : Int) : String :=
  let n := Double.roundDiv ((m * Nat.pow 10 places) <<< e.toNat) (1 <<< (-e).toNat)
  let digits := toString n
  let digits := "".pushn '0' (places + 1 - digits.length) ++ digits
  let whole := digits.length - places
  String.ofList (digits.toList.take whole)
    ++ (if places = 0 then "" else "." ++ String.ofList (digits.toList.drop whole))

/-- `x` with a fixed number of places, flush right in a column. -/
def fixed (width places : Nat) (x : Float) : String :=
  padLeft width <|
    match Double.decode x with
    | .nan => "NaN"
    | .infinite negative => if negative then "-inf" else "inf"
    | .finite negative m e => (if negative then "-" else "") ++ fixedDigits places m e

end PitFleet
