import PitFleet.Json.Quoted
import PitFleet.Number.Reading
import PitFleet.Toml.Basic

/-!
# Reading numbers, dates and times

Digits may be parted by single underscores. Whole numbers have 64 bits; those without a sign may
also be written to the bases 16, 8 and 2. Of dates and times only the form is read, which knows how
many days a month has.
-/

namespace PitFleet.Toml

/-- The digits that follow a digit, each with or without an underscore before it. -/
def moreDigits (isDigit : Char → Bool) : Reader (List Char)
  | '_' :: c :: cs => do
    if !isDigit c then none
    let (digits, rest) ← moreDigits isDigit cs
    return (c :: digits, rest)
  | ['_'] => none
  | c :: cs =>
    if isDigit c then do
      let (digits, rest) ← moreDigits isDigit cs
      return (c :: digits, rest)
    else some ([], c :: cs)
  | [] => some ([], [])

def digits (isDigit : Char → Bool) : Reader (List Char)
  | c :: cs => do
    if !isDigit c then none
    let (digits, rest) ← moreDigits isDigit cs
    return (c :: digits, rest)
  | [] => none

/-- A sign, which may be left out. -/
def sign : List Char → Bool × List Char
  | '+' :: cs => (false, cs)
  | '-' :: cs => (true, cs)
  | cs => (false, cs)

/-- Digits of which the first is no zero, or a single digit. -/
def wholeDigits : Reader (List Char)
  | '0' :: cs => some (['0'], cs)
  | cs => digits Char.isDigit cs

def fraction : Reader (List Char)
  | '.' :: cs => digits Char.isDigit cs
  | cs => some ([], cs)

def exponent : Reader Int
  | c :: cs =>
    if c = 'e' ∨ c = 'E' then do
      let (negative, cs) := sign cs
      let (digits, rest) ← digits Char.isDigit cs
      let n : Int := Reading.ofDigits digits
      return (if negative then -n else n, rest)
    else some (0, c :: cs)
  | [] => some (0, [])

/-- A whole number to a base, after its mark. -/
def basedInteger (base : Nat) (cs : List Char) : Option (Toml × List Char) := do
  let value? (c : Char) : Option Nat := (Json.hexValue? c).filter (· < base)
  let (digits, rest) ← digits (value? · |>.isSome) cs
  let n : Int := digits.foldl (fun n c => base * n + (value? c).getD 0) 0
  if fits n then some (.integer n, rest) else none

/-- A number to base ten. A point or an exponent makes it a double, which may not be beyond all
doubles above zero. -/
def decimal (cs : List Char) : Option (Toml × List Char) := do
  let (negative, afterSign) := sign cs
  let (whole, afterWhole) ← wholeDigits afterSign
  let (fraction, afterFraction) ← fraction afterWhole
  let (exponent, rest) ← exponent afterFraction
  if rest.length = afterWhole.length then
    let n : Int := Reading.ofDigits whole
    let n := if negative then -n else n
    if fits n then some (.integer n, rest) else none
  else
    let x := Reading.nearestSigned negative (Reading.ofDigits (whole ++ fraction))
      (exponent - fraction.length)
    if x == 1.0 / 0.0 then none else some (.real x, rest)

/-- The infinities and what is no number. -/
def special (cs : List Char) : Option (Toml × List Char) :=
  let (negative, cs) := sign cs
  match cs with
  | 'i' :: 'n' :: 'f' :: rest => some (.real (if negative then -1.0 / 0.0 else 1.0 / 0.0), rest)
  | 'n' :: 'a' :: 'n' :: rest => some (.real Double.nan, rest)
  | _ => none

def number : Reader Toml
  | '0' :: 'x' :: cs => basedInteger 16 cs
  | '0' :: 'o' :: cs => basedInteger 8 cs
  | '0' :: 'b' :: cs => basedInteger 2 cs
  | cs =>
    match special cs with
    | some r => some r
    | none => decimal cs

/-- A number of exactly so many digits within bounds. -/
def placed (length least greatest : Nat) (cs : List Char) : Option (Nat × List Char) := do
  let digits := cs.take length
  if digits.length < length ∨ !digits.all Char.isDigit then none
  let n := Reading.ofDigits digits
  if least ≤ n ∧ n ≤ greatest then some (n, cs.drop length) else none

def expect (c : Char) : List Char → Option (List Char)
  | d :: cs => if d = c then some cs else none
  | [] => none

def isLeapYear (year : Nat) : Bool :=
  year % 4 = 0 && (year % 100 ≠ 0 || year % 400 = 0)

def daysIn (year month : Nat) : Nat :=
  if month = 2 then if isLeapYear year then 29 else 28
  else if month ∈ [4, 6, 9, 11] then 30
  else 31

/-- What a text that starts like a date or a time comes to. -/
inductive Start (τ : Type)
  /-- It is something else. -/
  | other
  | faulty
  | read (value : τ)

/-- What must follow once the start is clear. -/
def Start.committed {τ : Type} : Option τ → Start τ
  | some x => .read x
  | none => .faulty

def date (cs : List Char) : Start (List Char) :=
  match placed 4 0 9999 cs with
  | some (year, '-' :: cs) => .committed do
    let (month, cs) ← placed 2 1 12 cs
    let (day, cs) ← placed 2 1 31 (← expect '-' cs)
    if day ≤ daysIn year month then some cs else none
  | _ => .other

def secondFraction : List Char → Option (List Char)
  | '.' :: c :: cs => if c.isDigit then some (cs.dropWhile Char.isDigit) else none
  | ['.'] => none
  | cs => some cs

/-- Hour, minute and second; there may be a second more than sixty. -/
def time (cs : List Char) : Start (List Char) :=
  match placed 2 0 23 cs with
  | some (_, ':' :: cs) => .committed do
    let (_, cs) ← placed 2 0 59 cs
    let (_, cs) ← placed 2 0 60 (← expect ':' cs)
    secondFraction cs
  | _ => .other

/-- The distance from universal time, which may be left out. -/
def timeOffset : List Char → Option (List Char)
  | [] => some []
  | c :: cs =>
    if c = 'Z' ∨ c = 'z' then some cs
    else if c = '+' ∨ c = '-' then do
      let (_, cs) ← placed 2 0 23 cs
      let (_, cs) ← placed 2 0 59 (← expect ':' cs)
      return cs
    else some (c :: cs)

/-- The time of a day, which may be left out, too. -/
def timeOfDay : List Char → Option (List Char)
  | [] => some []
  | c :: cs =>
    if c = 'T' ∨ c = 't' ∨ c = ' ' then
      match time cs with
      | .read cs => timeOffset cs
      | .faulty => none
      | .other => some (c :: cs)
    else some (c :: cs)

/-- A date, a time or both. -/
def moment (cs : List Char) : Start (List Char) :=
  match date cs with
  | .read cs => .committed (timeOfDay cs)
  | .faulty => .faulty
  | .other => time cs

/-- A number, a date or a time. -/
def quantity (cs : List Char) : Option (Toml × List Char) :=
  match moment cs with
  | .read cs => some (.dateTime, cs)
  | .faulty => none
  | .other => number cs

end PitFleet.Toml
