/-!
# Sorting

Sorting as a library provides it: members that neither come before each other may end up in any
order.
-/

namespace Pathwise

/-- A comparison by which the members of a list can be sorted: whether one comes before another. Of
two members at most one comes before the other, and a third one comes after the first of them or
before the second. -/
structure Sortable {α : Type} (less : α → α → Bool) (xs : List α) : Prop where
  asymm : ∀ x ∈ xs, ∀ y ∈ xs, less x y = true → less y x = false
  between : ∀ x ∈ xs, ∀ y ∈ xs, ∀ z ∈ xs, less x z = true → less x y = true ∨ less y z = true

/-- A way of sorting. -/
structure Sorter where
  /-- The members of a list in an order in which none comes before an earlier one. -/
  sort : {α : Type} → (α → α → Bool) → List α → List α
  perm : ∀ {α : Type} (less : α → α → Bool) (xs : List α), (sort less xs).Perm xs
  sorted : ∀ {α : Type} {less : α → α → Bool} {xs : List α}, Sortable less xs →
    (sort less xs).Pairwise fun x y => less y x = false

namespace Sorter

/-- Merge sort puts everything that can be sorted in order. -/
theorem pairwise_mergeSort_of_sortable {α : Type} {less : α → α → Bool} {xs : List α}
    (h : Sortable less xs) :
    (xs.mergeSort fun x y => !less y x).Pairwise fun x y => less y x = false := by
  -- members are compared as such, since nothing is known of other values
  have hsame : (xs.attach.mergeSort fun x y => !less y.1 x.1).map Subtype.val
      = xs.mergeSort fun x y => !less y x := by
    rw [List.map_mergeSort (s := fun x y => !less y x) fun _ _ _ _ => rfl,
      List.attach_map_subtype_val]
  rw [← hsame, List.pairwise_map]
  refine (List.pairwise_mergeSort ?_ ?_ _).imp fun {x y} hxy => by simpa using hxy
  · intro x y z hxy hyz
    cases hzx : less z.1 x.1 with
    | false => rfl
    | true => rcases h.between _ z.2 _ y.2 _ x.2 hzx with h | h <;> simp_all
  · intro x y
    cases hyx : less y.1 x.1 with
    | false => rfl
    | true => simp [h.asymm _ y.2 _ x.2 hyx]

/-- Merge sort, which keeps the order of members that neither come before each other. -/
def stable : Sorter where
  sort less xs := xs.mergeSort fun x y => !less y x
  perm _ _ := List.mergeSort_perm _ _
  sorted := pairwise_mergeSort_of_sortable

end Sorter

end Pathwise
