import PitFleet.Number.Double

/-!
# The shortest digits of a double

Of all decimal numbers that round to a given double, the one with the fewest digits, and among
those the nearest. Whether a decimal number rounds to the double is decided on whole numbers: the
numbers that do are those between the midpoints to its two neighbours, the midpoints included when
the mantissa is even.
-/

namespace PitFleet.Shortest

/-- Which of two numbers that are equally near is taken. -/
inductive Tie
  | even
  | up
  deriving DecidableEq, Repr

def Tie.roundDiv : Tie → Nat → Nat → Nat
  | even, n, d => Double.roundDiv n d
  | up, n, d => (2 * n + d) / (2 * d)

/-- The number `digits * 10 ^ exponent`. -/
structure Decimal where
  digits : Nat
  exponent : Int
  deriving DecidableEq, Repr

/-- The numbers that round to a double, as multiples of `1 / scale`. -/
structure Interval where
  low : Nat
  value : Nat
  high : Nat
  scale : Nat
  closed : Bool

/-- The interval of `m * 2 ^ e`. Below a power of two the neighbour is only half as far. -/
def Interval.of (m : Nat) (e : Int) : Interval :=
  let narrow := m = Double.fieldSize ∧ Double.leastExponent < e
  let places := (e - 2).toNat
  { low := (if narrow then 4 * m - 1 else 4 * m - 2) <<< places
    value := (4 * m) <<< places
    high := (4 * m + 2) <<< places
    scale := 1 <<< (2 - e).toNat
    closed := m % 2 = 0 }

/-- The interval in units of `10 ^ k`. -/
def Interval.inUnits (i : Interval) (k : Int) : Interval :=
  let up := Nat.pow 10 (-k).toNat
  { i with
    low := i.low * up
    value := i.value * up
    high := i.high * up
    scale := i.scale * Nat.pow 10 k.toNat }

def Interval.holds (i : Interval) (n : Nat) : Bool :=
  let x := n * i.scale
  if i.closed then i.low ≤ x ∧ x ≤ i.high else i.low < x ∧ x < i.high

/-- The whole number of the interval that is nearest to the value, provided one of the two
neighbours of the value lies in the interval. -/
def Interval.nearest? (tie : Tie) (i : Interval) : Option Nat :=
  let n := i.value / i.scale
  let below := i.holds n
  let above := i.holds (n + 1)
  if below && above then some (tie.roundDiv i.value i.scale)
  else if below then some n
  else if above then some (n + 1)
  else none

/-- The first of the units from `10 ^ k` downward in which the interval holds a whole number. -/
def search (tie : Tie) (i : Interval) : Nat → Int → Decimal
  | 0, k => ⟨tie.roundDiv (i.inUnits k).value (i.inUnits k).scale, k⟩
  | n + 1, k =>
    match (i.inUnits k).nearest? tie with
    | some d => ⟨d, k⟩
    | none => search tie i n (k - 1)

/-- The number without zeros at its end. -/
def trim : Nat → Decimal → Decimal
  | 0, d => d
  | n + 1, d =>
    if d.digits ≠ 0 ∧ d.digits % 10 = 0 then trim n ⟨d.digits / 10, d.exponent + 1⟩ else d

/-- An exponent of ten that is at least that of the leading digit of `m * 2 ^ e`. -/
def leadingBound (m : Nat) (e : Int) : Int :=
  ((m.log2 + 1 : Nat) + e) * 30103 / 100000 + 1

/-- The shortest digits of `m * 2 ^ e`; seventeen digits are always enough. -/
def digits (tie : Tie) (m : Nat) (e : Int) : Decimal :=
  trim 20 (search tie (.of m e) 20 (leadingBound m e))

end PitFleet.Shortest
