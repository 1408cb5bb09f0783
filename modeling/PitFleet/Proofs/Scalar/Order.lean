import Mathlib.Order.Lattice
import Mathlib.Tactic.Common
import PitFleet.Scalar

/-!
# Ordered scalars

`Scalar` says nothing of its comparisons. In an ordered scalar the numbers are comparable up to
ties, what is no number compares with nothing, and the round figures that the model compares stand
in their own order. A scalar is ordered if its numbers have places in a linear order that decide
their comparisons (`Scalar.Placed`). Doubles are ordered (`PitFleet.Proofs.Scalar.Doubles`) and so are the reals
(`PitFleet.Proofs.Scalar.Reals`): what holds over an ordered scalar holds of a run on doubles and
in exact arithmetic.
-/

namespace PitFleet

namespace Scalar

/-- The literal of so many tenths. -/
def tenths {α : Type} [Scalar α] (n : ℕ) : α :=
  OfScientific.ofScientific n true 1

/-- The figures, in tenths, whose order decides in the model: the times of the samples, the top
speeds and the payload. -/
def figures : List ℕ :=
  (List.range 31).map (5 * ·) ++ [450, 600, 2200]

end Scalar

class OrderedScalar (α : Type) [Scalar α] : Prop where
  isNaN_of_le {x y : α} : x ≤ y → Scalar.isNaN x = false ∧ Scalar.isNaN y = false
  le_total {x y : α} : Scalar.isNaN x = false → Scalar.isNaN y = false → x ≤ y ∨ y ≤ x
  le_trans {x y z : α} : x ≤ y → y ≤ z → x ≤ z
  lt_iff {x y : α} : x < y ↔ x ≤ y ∧ ¬ y ≤ x
  tenths_lt {m n : ℕ} : m ∈ Scalar.figures → n ∈ Scalar.figures → m < n →
    (Scalar.tenths m : α) < Scalar.tenths n

namespace Scalar

/-- Scalars that are numbers have a place, and comparisons are those of the places. -/
structure Placed {α β : Type} [Scalar α] [LinearOrder β] (place : α → Option β) : Prop where
  isNaN_iff {x : α} : isNaN x = false ↔ ∃ p, place x = some p
  le_iff {x y : α} : x ≤ y ↔ ∃ p q, place x = some p ∧ place y = some q ∧ p ≤ q
  lt_iff {x y : α} : x < y ↔ ∃ p q, place x = some p ∧ place y = some q ∧ p < q

namespace Placed

variable {α β : Type} [Scalar α] [LinearOrder β] {place : α → Option β} {x y z : α}

protected theorem lt_trans (hplaced : Placed place) (h : x < y) (h' : y < z) : x < z := by
  obtain ⟨p, q, hp, hq, hpq⟩ := hplaced.lt_iff.1 h
  obtain ⟨q', r, hq', hr, hqr⟩ := hplaced.lt_iff.1 h'
  obtain rfl := Option.some.inj (hq.symm.trans hq')
  exact hplaced.lt_iff.2 ⟨p, r, hp, hr, hpq.trans hqr⟩

protected theorem le_trans (hplaced : Placed place) (h : x ≤ y) (h' : y ≤ z) : x ≤ z := by
  obtain ⟨p, q, hp, hq, hpq⟩ := hplaced.le_iff.1 h
  obtain ⟨q', r, hq', hr, hqr⟩ := hplaced.le_iff.1 h'
  obtain rfl := Option.some.inj (hq.symm.trans hq')
  exact hplaced.le_iff.2 ⟨p, r, hp, hr, hpq.trans hqr⟩

protected theorem le_total (hplaced : Placed place) (hx : isNaN x = false)
    (hy : isNaN y = false) : x ≤ y ∨ y ≤ x := by
  obtain ⟨p, hp⟩ := hplaced.isNaN_iff.1 hx
  obtain ⟨q, hq⟩ := hplaced.isNaN_iff.1 hy
  rcases le_total p q with h | h
  · exact .inl (hplaced.le_iff.2 ⟨p, q, hp, hq, h⟩)
  · exact .inr (hplaced.le_iff.2 ⟨q, p, hq, hp, h⟩)

theorem lt_iff_le_not_le (hplaced : Placed place) : x < y ↔ x ≤ y ∧ ¬ y ≤ x := by
  rw [hplaced.lt_iff, hplaced.le_iff, hplaced.le_iff]
  constructor
  · rintro ⟨p, q, hp, hq, hpq⟩
    refine ⟨⟨p, q, hp, hq, hpq.le⟩, ?_⟩
    rintro ⟨q', p', hq', hp', hqp⟩
    obtain rfl := Option.some.inj (hp.symm.trans hp')
    obtain rfl := Option.some.inj (hq.symm.trans hq')
    exact not_le_of_gt hpq hqp
  · rintro ⟨⟨p, q, hp, hq, -⟩, hnot⟩
    exact ⟨p, q, hp, hq, not_le.1 fun hqp => hnot ⟨q, p, hq, hp, hqp⟩⟩

theorem ordered (hplaced : Placed place)
    (hfigures : ∀ {m n : ℕ}, m ∈ figures → n ∈ figures → m < n → (tenths m : α) < tenths n) :
    OrderedScalar α where
  isNaN_of_le h := by
    obtain ⟨p, q, hp, hq, -⟩ := hplaced.le_iff.1 h
    exact ⟨hplaced.isNaN_iff.2 ⟨p, hp⟩, hplaced.isNaN_iff.2 ⟨q, hq⟩⟩
  le_total := hplaced.le_total
  le_trans := hplaced.le_trans
  lt_iff := hplaced.lt_iff_le_not_le
  tenths_lt := hfigures

end Placed

variable {α : Type} [Scalar α] [OrderedScalar α] {x y z : α}

protected theorem le_of_lt (h : x < y) : x ≤ y :=
  (OrderedScalar.lt_iff.1 h).1

protected theorem not_le_of_lt (h : x < y) : ¬ y ≤ x :=
  (OrderedScalar.lt_iff.1 h).2

protected theorem not_lt_of_le (h : x ≤ y) : ¬ y < x := fun hc =>
  Scalar.not_le_of_lt hc h

protected theorem lt_irrefl (x : α) : ¬ x < x := fun h =>
  Scalar.not_le_of_lt h (Scalar.le_of_lt h)

theorem isNaN_of_lt (h : x < y) : isNaN x = false ∧ isNaN y = false :=
  OrderedScalar.isNaN_of_le (Scalar.le_of_lt h)

protected theorem le_refl (hx : isNaN x = false) : x ≤ x :=
  (OrderedScalar.le_total hx hx).elim id id

protected theorem lt_of_not_le (hx : isNaN x = false) (hy : isNaN y = false) (h : ¬ x ≤ y) :
    y < x :=
  OrderedScalar.lt_iff.2 ⟨(OrderedScalar.le_total hx hy).resolve_left h, h⟩

protected theorem le_of_not_lt (hx : isNaN x = false) (hy : isNaN y = false) (h : ¬ x < y) :
    y ≤ x := by
  by_contra hc
  exact h (Scalar.lt_of_not_le hy hx hc)

protected theorem lt_of_lt_of_le (h : x < y) (h' : y ≤ z) : x < z :=
  OrderedScalar.lt_iff.2 ⟨OrderedScalar.le_trans (Scalar.le_of_lt h) h',
    fun hc => Scalar.not_le_of_lt h (OrderedScalar.le_trans h' hc)⟩

protected theorem lt_of_le_of_lt (h : x ≤ y) (h' : y < z) : x < z :=
  OrderedScalar.lt_iff.2 ⟨OrderedScalar.le_trans h (Scalar.le_of_lt h'),
    fun hc => Scalar.not_le_of_lt h' (OrderedScalar.le_trans hc h)⟩

protected theorem lt_trans (h : x < y) (h' : y < z) : x < z :=
  Scalar.lt_of_lt_of_le h (Scalar.le_of_lt h')

theorem tenths_lt_iff {m n : ℕ} (hm : m ∈ figures) (hn : n ∈ figures) :
    (tenths m : α) < tenths n ↔ m < n := by
  refine ⟨fun h => ?_, OrderedScalar.tenths_lt hm hn⟩
  by_contra hc
  rcases Nat.eq_or_lt_of_le (Nat.not_lt.1 hc) with rfl | hlt
  · exact Scalar.lt_irrefl _ h
  · exact Scalar.lt_irrefl _ (Scalar.lt_trans h (OrderedScalar.tenths_lt hn hm hlt))

theorem isNaN_tenths {n : ℕ} (hn : n ∈ figures) : isNaN (tenths n : α) = false := by
  have h0 : 0 ∈ figures := by decide
  have h5 : 5 ∈ figures := by decide
  rcases Nat.eq_zero_or_pos n with rfl | hpos
  · exact (isNaN_of_lt ((tenths_lt_iff (α := α) h0 h5).2 (by decide))).1
  · exact (isNaN_of_lt ((tenths_lt_iff (α := α) h0 hn).2 hpos)).2

theorem tenths_le {m n : ℕ} (hm : m ∈ figures) (hn : n ∈ figures) (h : m ≤ n) :
    (tenths m : α) ≤ tenths n := by
  rcases Nat.eq_or_lt_of_le h with rfl | hlt
  · exact Scalar.le_refl (isNaN_tenths hm)
  · exact Scalar.le_of_lt ((tenths_lt_iff hm hn).2 hlt)

theorem tenths_zero_le {n : ℕ} (hn : n ∈ figures) : (tenths 0 : α) ≤ tenths n :=
  tenths_le (by decide) hn (Nat.zero_le n)

end Scalar

end PitFleet
