import PitFleet.Number.Double

/-!
# Reading decimal numbers

The double nearest to a decimal number of any length and exponent. Numbers far beyond the range of
doubles are told by their leading digit alone, so that no huge power is ever computed.
`Reading.float?` reads a whole text as people write numbers: with a sign or without one, with digits
on one side of the point only, or by the names of what is no finite number.
-/

namespace PitFleet.Reading

/-- The double nearest to `digits * 10 ^ exponent`. -/
def nearest (digits : Nat) (exponent : Int) : Float :=
  if digits = 0 then 0.0
  else
    let leading := exponent + (toString digits).length
    if 310 < leading then 1.0 / 0.0
    else if leading < -330 then 0.0
    else Float.ofScientific digits (decide (exponent < 0)) exponent.natAbs

def nearestSigned (negative : Bool) (digits : Nat) (exponent : Int) : Float :=
  if negative then -nearest digits exponent else nearest digits exponent

def ofDigits (cs : List Char) : Nat :=
  cs.foldl (fun n c => 10 * n + (c.toNat - '0'.toNat)) 0

/-- A sign at the start, which may be left out, and what follows it. -/
def sign : List Char → Bool × List Char
  | '+' :: cs => (false, cs)
  | '-' :: cs => (true, cs)
  | cs => (false, cs)

/-- The whole number that digits write, of which there is at least one. -/
def natural? (cs : List Char) : Option Nat :=
  if cs.isEmpty ∨ !cs.all Char.isDigit then none else some (ofDigits cs)

/-- The exponent that a text ends with, zero for an empty text. -/
def exponent? : List Char → Option Int
  | [] => some 0
  | c :: cs =>
    if c = 'e' ∨ c = 'E' then
      let (negative, digits) := sign cs
      (natural? digits).map fun n => if negative then -(n : Int) else n
    else none

/-- A number in digits, with a point and an exponent or without. -/
def unsigned? (negative : Bool) (cs : List Char) : Option Float :=
  let whole := cs.takeWhile Char.isDigit
  let rest := cs.dropWhile Char.isDigit
  let (fraction, rest) := match rest with
    | '.' :: rest => (rest.takeWhile Char.isDigit, rest.dropWhile Char.isDigit)
    | rest => ([], rest)
  if whole.isEmpty ∧ fraction.isEmpty then none
  else
    (exponent? rest).map fun e =>
      nearestSigned negative (ofDigits (whole ++ fraction)) (e - fraction.length)

def float? (text : String) : Option Float :=
  let (negative, cs) := sign text.toList
  match String.ofList (cs.map Char.toLower) with
  | "inf" | "infinity" => some (if negative then -1.0 / 0.0 else 1.0 / 0.0)
  | "nan" => some Double.nan
  | _ => unsigned? negative cs

/-- A whole number with a sign or without one. -/
def integer? (text : String) : Option Int :=
  let (negative, cs) := sign text.toList
  (natural? cs).map fun n => if negative then -(n : Int) else n

end PitFleet.Reading
