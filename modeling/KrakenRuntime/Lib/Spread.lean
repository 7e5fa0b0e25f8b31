import Mathlib.Algebra.BigOperators.Field
import Mathlib.Algebra.Order.BigOperators.Ring.Finset
import Mathlib.Algebra.Order.Group.Defs
import Mathlib.Data.Finset.Lattice.Fold
import Mathlib.Tactic.Linarith

/- The spread of finitely many values: the greatest less the least. Whoever always raises
   the least of them keeps the spread within what it was and the size of one raise. -/
namespace Spread
variable {ι K : Type} [LinearOrder K]

def least (s : Finset ι) (nonempty : s.Nonempty) (r : ι → K) : K := s.inf' nonempty r

section Least
variable {s : Finset ι} {nonempty : s.Nonempty} {r r' : ι → K} {i : ι}

theorem least_eq (member : i ∈ s) (low : ∀ j ∈ s, r i ≤ r j) : least s nonempty r = r i :=
  le_antisymm (Finset.inf'_le r member) (Finset.le_inf' nonempty r low)

theorem least_mono (grows : ∀ j ∈ s, r j ≤ r' j) : least s nonempty r ≤ least s nonempty r' := by
  apply Finset.le_inf'
  intro j member
  exact (Finset.inf'_le r member).trans (grows j member)

theorem least_congr (same : ∀ j ∈ s, r' j = r j) : least s nonempty r' = least s nonempty r :=
  Finset.inf'_congr nonempty rfl same

end Least

variable [Field K]

def spread (s : Finset ι) (nonempty : s.Nonempty) (r : ι → K) : K :=
  s.sup' nonempty r - least s nonempty r

section Raise
variable {s : Finset ι} {nonempty : s.Nonempty} {r r' : ι → K} {i : ι}

theorem spread_congr (same : ∀ j ∈ s, r' j = r j) : spread s nonempty r' = spread s nonempty r := by
  unfold spread
  rw [Finset.sup'_congr nonempty rfl same, least_congr same]

theorem spread_raise [IsStrictOrderedRing K] {b : K} (member : i ∈ s) (low : ∀ j ∈ s, r i ≤ r j)
    (others : ∀ j ∈ s, j ≠ i → r' j = r j) (up : r i ≤ r' i) (bound : r' i ≤ r i + b) :
    spread s nonempty r' ≤ max (spread s nonempty r) b := by
  have grows : ∀ j ∈ s, r j ≤ r' j := by
    intro j inside
    by_cases same : j = i
    · rw [same]
      exact up
    · exact (others j inside same).ge
  have floor : r i ≤ least s nonempty r' :=
    calc r i = least s nonempty r := (least_eq member low).symm
      _ ≤ least s nonempty r' := least_mono grows
  have ceiling : s.sup' nonempty r' ≤ max (s.sup' nonempty r) (r i + b) := by
    apply Finset.sup'_le
    intro j inside
    by_cases same : j = i
    · rw [same]
      exact bound.trans (le_max_right _ _)
    · rw [others j inside same]
      exact (Finset.le_sup' r inside).trans (le_max_left _ _)
  unfold spread
  rw [least_eq member low]
  rcases le_max_iff.mp ceiling with old | raised
  · exact le_max_of_le_left (by linarith)
  · exact le_max_of_le_right (by linarith)

end Raise

section Mean
variable [IsStrictOrderedRing K] {s : Finset ι} {nonempty : s.Nonempty} {w r : ι → K} {i : ι}

def mean (s : Finset ι) (w r : ι → K) : K := (∑ j ∈ s, w j * r j) / ∑ j ∈ s, w j

theorem least_le_mean (positive : ∀ j ∈ s, 0 < w j) : least s nonempty r ≤ mean s w r := by
  rw [mean, le_div_iff₀ (Finset.sum_pos positive nonempty), mul_comm, Finset.sum_mul]
  apply Finset.sum_le_sum
  intro j inside
  exact mul_le_mul_of_nonneg_left (Finset.inf'_le r inside) (positive j inside).le

theorem mean_le_greatest (positive : ∀ j ∈ s, 0 < w j) : mean s w r ≤ s.sup' nonempty r := by
  rw [mean, div_le_iff₀ (Finset.sum_pos positive nonempty), mul_comm, Finset.sum_mul]
  apply Finset.sum_le_sum
  intro j inside
  exact mul_le_mul_of_nonneg_left (Finset.le_sup' r inside) (positive j inside).le

theorem abs_sub_mean_le (positive : ∀ j ∈ s, 0 < w j) (member : i ∈ s) :
    |r i - mean s w r| ≤ spread s nonempty r := by
  have low : least s nonempty r ≤ mean s w r := least_le_mean positive
  have high : mean s w r ≤ s.sup' nonempty r := mean_le_greatest positive
  have above : least s nonempty r ≤ r i := Finset.inf'_le r member
  have below : r i ≤ s.sup' nonempty r := Finset.le_sup' r member
  rw [abs_le, spread]
  constructor <;> linarith

end Mean

end Spread
