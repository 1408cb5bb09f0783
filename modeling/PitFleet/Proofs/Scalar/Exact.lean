import Mathlib
import PitFleet.Proofs.Scalar.Signs

/-!
# Exact arithmetic with infinities

A scalar of `Exact` is a real number, an infinity or no number. The operations are those of doubles
without rounding and without a sign of zero: what the reals leave to a convention, such as a
division by zero, is here what a double makes of it. An operation on numbers whose divisor is not
zero is that of the reals (`number_add`, `number_div` and the others).
-/

namespace PitFleet

inductive Exact
  | nan
  | infinite (negative : Bool)
  | number (x : ℝ)

namespace Exact

noncomputable section

/-- Where a scalar stands; what is no number stands nowhere. -/
def place : Exact → Option EReal
  | nan => none
  | infinite true => some ⊥
  | infinite false => some ⊤
  | number x => some x

def Before (R : EReal → EReal → Prop) (x y : Exact) : Prop :=
  ∃ p q, x.place = some p ∧ y.place = some q ∧ R p q

def neg : Exact → Exact
  | nan => nan
  | infinite s => infinite !s
  | number x => number (-x)

def add : Exact → Exact → Exact
  | number x, number y => number (x + y)
  | number _, infinite s => infinite s
  | infinite s, number _ => infinite s
  | infinite s, infinite t => if s = t then infinite s else nan
  | nan, _ => nan
  | _, nan => nan

def scale (s : Bool) (x : ℝ) : Exact :=
  if x = 0 then nan else infinite (s ^^ decide (x < 0))

def mul : Exact → Exact → Exact
  | number x, number y => number (x * y)
  | number x, infinite s => scale s x
  | infinite s, number x => scale s x
  | infinite s, infinite t => infinite (s ^^ t)
  | nan, _ => nan
  | _, nan => nan

def div : Exact → Exact → Exact
  | number x, number y =>
    if y = 0 then if x = 0 then nan else infinite (decide (x < 0)) else number (x / y)
  | number _, infinite _ => number 0
  | infinite s, number y => infinite (s ^^ decide (y < 0))
  | infinite _, infinite _ => nan
  | nan, _ => nan
  | _, nan => nan

def rem : Exact → Exact → Exact
  | number x, number y => if y = 0 then nan else number (Scalar.rem x y)
  | number x, infinite _ => number x
  | infinite _, _ => nan
  | nan, _ => nan
  | _, nan => nan

def abs : Exact → Exact
  | nan => nan
  | infinite _ => infinite false
  | number x => number |x|

/-- An infinity has no sine and no cosine. -/
def circular (f : ℝ → ℝ) : Exact → Exact
  | number x => number (f x)
  | _ => nan

def half (s : Bool) (x : ℝ) : Exact :=
  number (if s then -x else x)

/-- Between an infinite coordinate and a finite one the direction is along the infinite one, between
two infinite ones it is halfway. -/
def atan2 : Exact → Exact → Exact
  | number y, number x => number (Scalar.atan2 y x)
  | number _, infinite false => number 0
  | number y, infinite true => half (decide (y < 0)) Real.pi
  | infinite s, number _ => half s (Real.pi / 2)
  | infinite s, infinite false => half s (Real.pi / 4)
  | infinite s, infinite true => half s (3 * Real.pi / 4)
  | nan, _ => nan
  | _, nan => nan

def hypot : Exact → Exact → Exact
  | number x, number y => number (Scalar.hypot x y)
  | infinite _, _ => infinite false
  | _, infinite _ => infinite false
  | nan, _ => nan
  | _, nan => nan

def isNaN : Exact → Bool
  | nan => true
  | _ => false

def isFinite : Exact → Bool
  | number _ => true
  | _ => false

open Classical in
instance : Scalar Exact where
  add := add
  sub x y := add x (neg y)
  mul := mul
  div := div
  neg := neg
  lt := Before (· < ·)
  le := Before (· ≤ ·)
  ofScientific m s e := number (OfScientific.ofScientific m s e)
  decLt _ _ := inferInstance
  decLe _ _ := inferInstance
  isNaN := isNaN
  isFinite := isFinite
  abs := abs
  sin := circular Real.sin
  cos := circular Real.cos
  atan2 := atan2
  hypot := hypot
  rem := rem
  pi := number Real.pi

end

section Numbers

variable (x y : ℝ)

@[simp]
theorem number_add : number x + number y = number (x + y) :=
  rfl

@[simp]
theorem number_sub : number x - number y = number (x - y) :=
  congrArg number (sub_eq_add_neg x y).symm

@[simp]
theorem number_mul : number x * number y = number (x * y) :=
  rfl

@[simp]
theorem number_ite (p : Prop) [Decidable p] :
    (if p then number x else number y) = number (if p then x else y) :=
  (apply_ite number p x y).symm

@[simp]
theorem abs_number : Scalar.abs (number x) = number (Scalar.abs x) :=
  rfl

theorem isNaN_number : Scalar.isNaN (number x) = false :=
  rfl

theorem isNaN_nan : Scalar.isNaN nan = true :=
  rfl

theorem isNaN_infinite (s : Bool) : Scalar.isNaN (infinite s) = false :=
  rfl

theorem ofScientific_eq (m : ℕ) (s : Bool) (e : ℕ) :
    (OfScientific.ofScientific m s e : Exact) = number (OfScientific.ofScientific m s e) :=
  rfl

theorem zero_eq : (0.0 : Exact) = number 0 := by
  rw [ofScientific_eq]
  exact congrArg number zero_real

variable {x y}

theorem number_div (h : y ≠ 0) : number x / number y = number (x / y) :=
  if_neg h

theorem before_number_iff {R : EReal → EReal → Prop} :
    Before R (number x) (number y) ↔ R x y := by
  simp [Before, place]

@[simp]
theorem number_lt : number x < number y ↔ x < y :=
  before_number_iff.trans EReal.coe_lt_coe_iff

@[simp]
theorem number_le : number x ≤ number y ↔ x ≤ y :=
  before_number_iff.trans EReal.coe_le_coe_iff

theorem infinite_lt_number (x : ℝ) : infinite true < number x :=
  ⟨⊥, x, rfl, rfl, EReal.bot_lt_coe x⟩

theorem number_lt_infinite (x : ℝ) : number x < infinite false :=
  ⟨x, ⊤, rfl, rfl, EReal.coe_lt_top x⟩

theorem not_infinite_lt_number (x : ℝ) : ¬ infinite false < number x := by
  rintro ⟨p, q, hp, hq, hpq⟩
  cases hp
  exact not_top_lt hpq

@[simp]
theorem number_min : Scalar.min (number x) (number y) = number (Scalar.min x y) := by
  simp only [Scalar.min, isNaN_number, number_lt, number_ite]
  rfl

@[simp]
theorem number_max : Scalar.max (number x) (number y) = number (Scalar.max x y) := by
  simp only [Scalar.max, isNaN_number, number_lt, number_ite]
  rfl

end Numbers

theorem eq_number_of_isFinite {x : Exact} (h : Scalar.isFinite x = true) : ∃ r, x = number r := by
  cases x with
  | nan => cases h
  | infinite => cases h
  | number r => exact ⟨r, rfl⟩

/-- A number in the place of `x`: no number gives way to zero and an infinity to the nearer of zero
and `top`. -/
def settle (top : ℝ) : Exact → ℝ
  | nan => 0
  | infinite true => 0
  | infinite false => top
  | number x => x

theorem isStep_iff {dt : Exact} : Scalar.IsStep dt ↔ ∃ d, dt = number d ∧ 0 < d := by
  unfold Scalar.IsStep
  rw [zero_eq]
  constructor
  · rintro ⟨hfinite, hpos⟩
    obtain ⟨d, rfl⟩ := eq_number_of_isFinite hfinite
    exact ⟨d, rfl, by simpa using hpos⟩
  · rintro ⟨d, rfl, hd⟩
    exact ⟨rfl, by simpa using hd⟩

theorem isStep_settle {dt : Exact} : Scalar.IsStep (dt.settle 0) ↔ Scalar.IsStep dt := by
  rw [isStep_real, isStep_iff]
  rcases dt with _ | (_ | _) | d <;> simp [settle]

theorem isNaN_eq_false_iff {x : Exact} : Scalar.isNaN x = false ↔ ∃ p, x.place = some p := by
  rcases x with _ | (_ | _) | r <;> simp [Scalar.isNaN, isNaN, place]

theorem placed : Scalar.Placed place where
  isNaN_iff := isNaN_eq_false_iff
  le_iff := .rfl
  lt_iff := .rfl

instance : OrderedScalar Exact := by
  refine placed.ordered fun {m n} hm hn h => ?_
  have hreal : (Scalar.tenths m : ℝ) < Scalar.tenths n := OrderedScalar.tenths_lt hm hn h
  exact number_lt.2 hreal

end Exact

end PitFleet
