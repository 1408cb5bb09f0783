import PitFleet.Json.Draft
import PitFleet.Number.Reading

/-!
# Reading numbers

A numeral has a whole part without leading zeros and may have a fraction and an exponent. Whole
numbers are kept as such if they fit in 64 bits, with or without a sign. All others are read fast
rather than exactly: digits beyond 64 bits are dropped, and the digits and their power of ten are
rounded before they are multiplied, so that the double that comes out may not be the nearest one.
-/

namespace PitFleet.Json

/-- A numeral that goes wrong is cut short for one who reads it if the text ends there; one who
skips it, or wants a name, finds it malformed in any case. -/
def numeralBreak (rest : List Char) : Break :=
  ⟨if rest.isEmpty then .truncated else .malformed, .malformed, .malformed⟩

/-- The digits at the start, at least one. -/
def someDigits (cs : List Char) : Except Break (List Char × List Char) :=
  let digits := cs.takeWhile Char.isDigit
  let rest := cs.dropWhile Char.isDigit
  if digits.isEmpty then .error (numeralBreak rest) else .ok (digits, rest)

/-- The whole part; a zero stands alone. -/
def wholePart (cs : List Char) : Except Break (List Char × List Char) := do
  let (digits, rest) ← someDigits cs
  if digits.head? = some '0' ∧ digits.length ≠ 1 then .error .malformed else .ok (digits, rest)

def fractionPart : List Char → Except Break (Option (List Char) × List Char)
  | '.' :: cs => do
    let (digits, rest) ← someDigits cs
    return (some digits, rest)
  | cs => .ok (none, cs)

def exponentSign : List Char → Bool × List Char
  | '+' :: cs => (false, cs)
  | '-' :: cs => (true, cs)
  | cs => (false, cs)

def exponentPart : List Char → Except Break (Option Int × List Char)
  | [] => .ok (none, [])
  | c :: cs =>
    if c = 'e' ∨ c = 'E' then do
      let (negative, cs) := exponentSign cs
      let (digits, rest) ← someDigits cs
      let n : Int := Reading.ofDigits digits
      return (some (if negative then -n else n), rest)
    else .ok (none, c :: cs)

/-- Puts digits behind a number as long as it stays within 64 bits; the digits left over. -/
def takeDigits (n : Nat) : List Char → Nat × List Char
  | [] => (n, [])
  | c :: cs =>
    let next := 10 * n + (c.toNat - '0'.toNat)
    if next < UInt64.size then takeDigits next cs else (n, c :: cs)

/-- The digits of a numeral that are taken, and the power of ten that belongs to them. -/
def significand (whole fraction : List Char) : Nat × Int :=
  let (n, wholeLeft) := takeDigits 0 whole
  let (n, fractionLeft) := takeDigits n fraction
  (n, wholeLeft.length - (fraction.length - fractionLeft.length : Nat))

/-- The last power of ten that is a finite double. -/
def lastTenPower : Nat := 308

/-- So many divisions by the last power of ten, of which there may be fewer if nothing is left. -/
def reduce : Nat → Float → Float
  | 0, x => x
  | n + 1, x => if x == 0.0 then x else reduce n (x / Reading.nearest 1 lastTenPower)

/-- `n * 10 ^ e` up to the rounding of both and of what they come to. -/
def approximate (n : Nat) (e : Int) : Float :=
  let x := Reading.nearest n 0
  if n = 0 then x
  else if 0 ≤ e then x * Reading.nearest 1 e
  else
    let places := (-e).toNat
    let times := (places - 1) / lastTenPower
    reduce times x / Reading.nearest 1 (places - lastTenPower * times : Nat)

/-- The value of a numeral, none if it is beyond all doubles. -/
def numeralValue (negative : Bool) (whole : List Char) (fraction : Option (List Char))
    (exponent : Option Int) : Option Number :=
  let n : Int := Reading.ofDigits whole
  let n := if negative then -n else n
  let fits := Int64.minValue.toInt ≤ n ∧ n < UInt64.size
  if fraction.isNone ∧ exponent.isNone ∧ fits ∧ ¬ (negative ∧ n = 0) then
    some (.integer n)
  else
    let (n, e) := significand whole (fraction.getD [])
    let x := approximate n (e + exponent.getD 0)
    let x := if negative then -x else x
    if x.isFinite then some (.real x) else none

/-- A numeral at the start of the text and what follows it. -/
def numeral (cs : List Char) : Except Break (Option Number × List Char) := do
  let (negative, cs) := match cs with
    | '-' :: cs => (true, cs)
    | cs => (false, cs)
  let (whole, cs) ← wholePart cs
  let (fraction, cs) ← fractionPart cs
  let (exponent, cs) ← exponentPart cs
  return (numeralValue negative whole fraction exponent, cs)

end PitFleet.Json
