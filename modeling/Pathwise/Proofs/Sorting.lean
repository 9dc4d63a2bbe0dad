import Mathlib.Order.Lattice
import Pathwise.Sorting

/-!
# Sorting by a key

A comparison that goes by a key, in an order that is total, sorts by that key, whatever the way of
sorting (`Sorter.pairwise_of_key`, `pairwise_mergeSort_of_key`). If no two members share a key, then
the order in which they come does not matter (`mergeSort_eq_of_perm_of_key`).
-/

namespace Pathwise

variable {α κ : Type} [LinearOrder κ] {key : α → κ} {le : α → α → Bool}

/-- Members can be sorted by a key. -/
theorem sortable_of_key {less : α → α → Bool} {xs : List α}
    (hless : ∀ x ∈ xs, ∀ y ∈ xs, less x y = true ↔ key x < key y) : Sortable less xs where
  asymm x hx y hy hxy := by
    rw [← Bool.not_eq_true, hless y hy x hx]
    exact lt_asymm ((hless x hx y hy).mp hxy)
  between x hx y hy z hz hxz := by
    rw [hless x hx y hy, hless y hy z hz]
    exact (lt_or_ge (key x) (key y)).imp_right fun hle => hle.trans_lt ((hless x hx z hz).mp hxz)

/-- Every way of sorting by a key does so. -/
theorem Sorter.pairwise_of_key (sorter : Sorter) {less : α → α → Bool} {xs : List α}
    (hless : ∀ x ∈ xs, ∀ y ∈ xs, less x y = true ↔ key x < key y) :
    (sorter.sort less xs).Pairwise fun x y => key x ≤ key y := by
  refine (sorter.sorted (sortable_of_key hless)).imp_of_mem fun {x y} hx hy hyx => ?_
  have hx : x ∈ xs := (sorter.perm less xs).mem_iff.mp hx
  have hy : y ∈ xs := (sorter.perm less xs).mem_iff.mp hy
  rw [← Bool.not_eq_true, hless y hy x hx] at hyx
  exact not_lt.mp hyx

/-- Sorting by keys gives ascending keys. -/
theorem pairwise_mergeSort_of_key (hle : ∀ a b, le a b = true ↔ key a ≤ key b) (xs : List α) :
    (xs.mergeSort le).Pairwise fun a b => key a ≤ key b := by
  refine (List.pairwise_mergeSort ?_ ?_ xs).imp fun {a b} => (hle a b).mp
  · intro a b c hab hbc
    exact (hle a c).mpr (le_trans ((hle a b).mp hab) ((hle b c).mp hbc))
  · intro a b
    rw [Bool.or_eq_true, hle, hle]
    exact le_total _ _

/-- If keys are different, the order before sorting does not matter. -/
theorem mergeSort_eq_of_perm_of_key (hle : ∀ a b, le a b = true ↔ key a ≤ key b)
    (hkey : Function.Injective key) {xs ys : List α} (h : xs.Perm ys) :
    xs.mergeSort le = ys.mergeSort le := by
  have hxs := pairwise_mergeSort_of_key hle xs
  have hys := pairwise_mergeSort_of_key hle ys
  refine List.Perm.eq_of_pairwise ?_ hxs hys ?_
  · intro a b _ _ hab hba
    exact hkey (le_antisymm hab hba)
  · exact (List.mergeSort_perm _ _).trans (h.trans (List.mergeSort_perm _ _).symm)

end Pathwise
