import Mathlib.Data.List.Chain
import Mathlib.Data.List.Pairwise
import Mathlib.Data.Prod.Lex
import Mathlib.Order.Compare
import Mathlib.Tactic.Common
import PitFleet.Number.Double
import PitFleet.Proofs.Scalar.Order

/-!
# Doubles are ordered

A double that is a number has a place in a linear order, by its sign, its exponent and its
mantissa, and doubles compare as their places do (`compare_eq_place`). Zeros share one place.
-/

namespace PitFleet.Double

open Float.Model Float.Model.UnpackedFloat

/-- Where a double stands among the numbers; what is no number stands nowhere. -/
def place : UnpackedFloat → Option (ℤ ×ₗ ℤ ×ₗ ℤ)
  | .notANumber => none
  | .infinity .negative => some (toLex (-2, toLex (0, 0)))
  | .finite .negative m e _ => some (toLex (-1, toLex (-e, -m)))
  | .zero _ => some (toLex (0, toLex (0, 0)))
  | .finite .positive m e _ => some (toLex (1, toLex (e, m)))
  | .infinity .positive => some (toLex (2, toLex (0, 0)))

theorem compare_neg_neg (a b : ℤ) : compare (-a) (-b) = (compare a b).swap := by
  rcases lt_trichotomy a b with h | rfl | h
  · rw [compare_lt_iff_lt.2 h, compare_gt_iff_gt.2 (by omega)]
    rfl
  · rw [compare_eq_iff_eq.2 rfl, compare_eq_iff_eq.2 rfl]
    rfl
  · rw [compare_gt_iff_gt.2 h, compare_lt_iff_lt.2 (by omega)]
    rfl

theorem compare_natCast (m n : ℕ) : compare (m : ℤ) (n : ℤ) = compare m n := by
  rcases lt_trichotomy m n with h | rfl | h
  · rw [compare_lt_iff_lt.2 h, compare_lt_iff_lt.2 (by exact_mod_cast h)]
  · rw [compare_eq_iff_eq.2 rfl, compare_eq_iff_eq.2 rfl]
  · rw [compare_gt_iff_gt.2 h, compare_gt_iff_gt.2 (by exact_mod_cast h)]

theorem compare_eq_place (a b : UnpackedFloat) :
    a.compare b = (place a).bind fun x => (place b).map fun y => compare x y := by
  rcases a with (_ | _) | _ | _ | ⟨_ | _, m, e, _⟩ <;>
    rcases b with (_ | _) | _ | _ | ⟨_ | _, n, f, _⟩ <;> try rfl
  all_goals
    dsimp only [UnpackedFloat.compare, place]
    simp [Prod.Lex.compare_def, compareLex, compareOn, compare_neg_neg, compare_natCast,
      Ordering.swap_then]

theorem isNaN_eq_false_iff (x : Float) :
    x.isNaN = false ↔ ∃ p, place x.toModel.unpack = some p := by
  change x.toModel.unpack.isNaN = false ↔ _
  rcases x.toModel.unpack with (_ | _) | _ | _ | ⟨_ | _, m, e, _⟩
  case notANumber => exact ⟨nofun, nofun⟩
  all_goals exact ⟨fun _ => ⟨_, rfl⟩, fun _ => rfl⟩

theorem lt_iff_place (x y : Float) :
    x < y ↔ ∃ p q, place x.toModel.unpack = some p ∧ place y.toModel.unpack = some q ∧ p < q := by
  rw [show x < y ↔ x.toModel < y.toModel from decide_eq_true_iff]
  change (x.toModel.unpack.compare y.toModel.unpack == some .lt) = true ↔ _
  rw [compare_eq_place]
  rcases place x.toModel.unpack with _ | p <;> rcases place y.toModel.unpack with _ | q <;>
    simp [compare_lt_iff_lt]

theorem le_iff_place (x y : Float) :
    x ≤ y ↔ ∃ p q, place x.toModel.unpack = some p ∧ place y.toModel.unpack = some q ∧ p ≤ q := by
  rw [show x ≤ y ↔ x.toModel ≤ y.toModel from decide_eq_true_iff]
  change (x.toModel.unpack.compare y.toModel.unpack).any (·.isLE) = true ↔ _
  rw [compare_eq_place]
  rcases place x.toModel.unpack with _ | p <;> rcases place y.toModel.unpack with _ | q <;>
    simp [Ordering.isLE_iff_ne_gt, compare_le_iff_le]

theorem placed : Scalar.Placed fun x : Float => place x.toModel.unpack where
  isNaN_iff := isNaN_eq_false_iff _
  le_iff := le_iff_place _ _
  lt_iff := lt_iff_place _ _

/-- Each figure is computed once, against the next one. -/
theorem figures_isChain :
    Scalar.figures.IsChain fun m n => (Scalar.tenths m : Float) < Scalar.tenths n := by
  decide +kernel

theorem tenths_lt {m n : ℕ} (hm : m ∈ Scalar.figures) (hn : n ∈ Scalar.figures) (h : m < n) :
    (Scalar.tenths m : Float) < Scalar.tenths n := by
  have : IsTrans ℕ fun m n => (Scalar.tenths m : Float) < Scalar.tenths n :=
    ⟨fun _ _ _ => placed.lt_trans⟩
  have hup : Scalar.figures.Pairwise (· < ·) := by decide
  have hlit := List.isChain_iff_pairwise.1 figures_isChain
  let R (m n : ℕ) : Prop := m < n → (Scalar.tenths m : Float) < Scalar.tenths n
  have hself : ∀ m ∈ Scalar.figures, R m m := fun m _ hc => absurd hc (lt_irrefl m)
  have hfwd : Scalar.figures.Pairwise R := by
    refine List.Pairwise.imp ?_ hlit
    intro m n hl _
    exact hl
  have hbwd : Scalar.figures.Pairwise (flip R) := by
    refine List.Pairwise.imp ?_ hup
    intro m n hl hc
    exact absurd hc (lt_asymm hl)
  exact hfwd.forall_of_forall_of_flip hself hbwd hm hn h

end PitFleet.Double

namespace PitFleet

instance : OrderedScalar Float :=
  Double.placed.ordered Double.tenths_lt

end PitFleet
