import Mathlib.Order.Bounds.Defs
import Pathwise.Comparison.Memory

/-!
# The rows compute the longest common subsequence

`Subsequence.longestCommon` goes through one list row by row, and along each row through the other
list. What it computes does not depend on which list is which.

* **Specification** (`IsLongest`): some common subsequence has the length, and none is longer. There
  is only one such number (`IsLongest.unique`), and the order of the lists does not matter
  (`IsLongest.symm`).
* **Steps** (`IsLongest.concat_same`, `IsLongest.concat_ne`): the two cases of an entry, for lists
  that each have one more member at the end.
* **Rows** (`IsRow`): the entries of a row are right for the initial segments of the list along it.
  One more row keeps that up (`IsRow.nextRow`), and so do all rows (`isRow_lastRow`).
* **The result** (`longestCommon_isGreatest`): the greatest length that a common subsequence has.
-/

namespace Pathwise.Subsequence

open List

universe u

variable {α : Type u} {x y : α} {xs ys : List α} {m n : Nat}

/-! ### Specification -/

/-- A number is the length of a longest common subsequence of two lists. -/
structure IsLongest (xs ys : List α) (n : Nat) : Prop where
  attained : ∃ zs, zs <+ xs ∧ zs <+ ys ∧ zs.length = n
  bound : ∀ zs, zs <+ xs → zs <+ ys → zs.length ≤ n

/-- There is only one length of longest common subsequences. -/
theorem IsLongest.unique (hm : IsLongest xs ys m) (hn : IsLongest xs ys n) : m = n := by
  obtain ⟨zs, hx, hy, rfl⟩ := hm.attained
  obtain ⟨zs', hx', hy', rfl⟩ := hn.attained
  exact Nat.le_antisymm (hn.bound zs hx hy) (hm.bound zs' hx' hy')

/-- The length of longest common subsequences does not depend on which list is which. -/
theorem IsLongest.symm (h : IsLongest xs ys n) : IsLongest ys xs n where
  attained := by
    obtain ⟨zs, hx, hy, hlength⟩ := h.attained
    exact ⟨zs, hy, hx, hlength⟩
  bound zs hy hx := h.bound zs hx hy

/-- Nothing is in common with an empty list. -/
theorem isLongest_nil_left (ys : List α) : IsLongest [] ys 0 where
  attained := ⟨[], nil_sublist _, nil_sublist _, rfl⟩
  bound zs hzs _ := by simp [sublist_nil.mp hzs]

/-- Nothing is in common with an empty list on the other side. -/
theorem isLongest_nil_right (xs : List α) : IsLongest xs [] 0 :=
  (isLongest_nil_left xs).symm

/-- A list is its own longest common subsequence. -/
theorem isLongest_self (xs : List α) : IsLongest xs xs xs.length where
  attained := ⟨xs, Sublist.refl _, Sublist.refl _, rfl⟩
  bound _ hzs _ := hzs.length_le

/-- The number is the greatest length of a common subsequence. -/
theorem IsLongest.isGreatest (h : IsLongest xs ys n) :
    IsGreatest {k | ∃ zs, zs <+ xs ∧ zs <+ ys ∧ zs.length = k} n := by
  refine ⟨h.attained, ?_⟩
  rintro _ ⟨zs, hx, hy, rfl⟩
  exact h.bound zs hx hy

/-- A common subsequence is not longer than either list. -/
theorem IsLongest.le_length (h : IsLongest xs ys n) : n ≤ xs.length := by
  obtain ⟨zs, hx, -, rfl⟩ := h.attained
  exact hx.length_le

/-- A whole list is common to both exactly if it is a subsequence of the other. -/
theorem IsLongest.eq_length_iff (h : IsLongest xs ys n) : n = xs.length ↔ xs <+ ys := by
  constructor
  · rintro rfl
    obtain ⟨zs, hx, hy, hlength⟩ := h.attained
    rwa [hx.eq_of_length hlength] at hy
  · intro hsub
    exact Nat.le_antisymm h.le_length (h.bound xs (Sublist.refl _) hsub)

/-! ### Steps -/

/-- A subsequence of a list with one more member either goes without it or ends with it. -/
theorem sublist_concat {zs : List α} (h : zs <+ xs ++ [x]) :
    zs <+ xs ∨ ∃ zs', zs = zs' ++ [x] ∧ zs' <+ xs := by
  obtain ⟨front, back, rfl, hfront, hback⟩ := sublist_append_iff.mp h
  rcases sublist_cons_iff.mp hback with hnil | ⟨rest, rfl, hrest⟩
  · rw [sublist_nil.mp hnil, append_nil]
    exact .inl hfront
  · rw [sublist_nil.mp hrest]
    exact .inr ⟨front, rfl, hfront⟩

/-- A member that ends both lists can be taken. -/
theorem IsLongest.concat_same (h : IsLongest xs ys n) (x : α) :
    IsLongest (xs ++ [x]) (ys ++ [x]) (n + 1) where
  attained := by
    obtain ⟨zs, hx, hy, rfl⟩ := h.attained
    exact ⟨zs ++ [x], hx.append (Sublist.refl _), hy.append (Sublist.refl _), by simp⟩
  bound zs hx hy := by
    -- without its last member, a common subsequence is one of the shorter lists
    have hshort {vs : List α} (hzs : zs <+ vs ++ [x]) : zs.dropLast <+ vs := by
      rcases sublist_concat hzs with hzs | ⟨front, rfl, hfront⟩
      · exact (dropLast_sublist zs).trans hzs
      · rwa [dropLast_concat]
    have hlength := h.bound _ (hshort hx) (hshort hy)
    rw [length_dropLast] at hlength
    omega

/-- Of two different members at the ends, one is not taken. -/
theorem IsLongest.concat_ne (hne : x ≠ y) (hm : IsLongest (xs ++ [x]) ys m)
    (hn : IsLongest xs (ys ++ [y]) n) : IsLongest (xs ++ [x]) (ys ++ [y]) (max m n) where
  attained := by
    rcases Nat.le_total m n with hle | hle
    · obtain ⟨zs, hx, hy, hlength⟩ := hn.attained
      exact ⟨zs, hx.trans (sublist_append_left _ _), hy, by omega⟩
    · obtain ⟨zs, hx, hy, hlength⟩ := hm.attained
      exact ⟨zs, hx, hy.trans (sublist_append_left _ _), by omega⟩
  bound zs hx hy := by
    rcases sublist_concat hx with hx' | ⟨front, rfl, -⟩
    · have := hn.bound zs hx' hy
      omega
    · rcases sublist_concat hy with hy' | ⟨front', hfront, -⟩
      · have := hm.bound _ hx hy'
        omega
      · have hlast := append_inj' hfront rfl
        exact absurd (singleton_inj.mp hlast.2) hne

/-! ### Rows -/

/-- The entries of a row along `xs`, after `before`: each is the length for all of `ys` and for the
members up to its own. -/
def IsRow (before : List α) (ys : List α) : List α → List Nat → Prop
  | [], [] => True
  | x :: xs, n :: row => IsLongest (before ++ [x]) ys n ∧ IsRow (before ++ [x]) ys xs row
  | _, _ => False

/-- The first row is for no members, and all zero. -/
theorem isRow_zeros (before xs : List α) : IsRow before [] xs (xs.map fun _ => 0) := by
  induction xs generalizing before with
  | nil => trivial
  | cons x xs ih => exact ⟨isLongest_nil_right _, ih _⟩

/-- The last entry of a row is for the whole list, and where there is none, the entry before the
row. -/
theorem IsRow.getLastD {before : List α} {row : List Nat} (hrow : IsRow before ys xs row)
    (hn : IsLongest before ys n) : IsLongest (before ++ xs) ys (row.getLastD n) := by
  induction xs generalizing before row n with
  | nil =>
      cases row with
      | nil => simpa using hn
      | cons _ _ => exact hrow.elim
  | cons x xs ih =>
      cases row with
      | nil => exact hrow.elim
      | cons here row =>
          rw [getLastD_cons, append_cons]
          exact ih hrow.2 hrow.1

variable [DecidableEq α]

/-- One more member below gives one more row. Along the row, `corner` and `left` are the lengths for
the members already passed, above and in the row itself. -/
theorem IsRow.nextRow {before : List α} {corner left : Nat} {row : List Nat}
    (hrow : IsRow before ys xs row) (hcorner : IsLongest before ys corner)
    (hleft : IsLongest before (ys ++ [y]) left) :
    IsRow before (ys ++ [y]) xs (nextRow y xs corner left row) := by
  induction xs generalizing before corner left row with
  | nil =>
      cases row with
      | nil => trivial
      | cons _ _ => exact hrow.elim
  | cons x xs ih =>
      cases row with
      | nil => exact hrow.elim
      | cons up row =>
          have hhere : IsLongest (before ++ [x]) (ys ++ [y])
              (if x = y then corner + 1 else max up left) := by
            by_cases hxy : x = y
            · rw [if_pos hxy, hxy]
              exact hcorner.concat_same y
            · rw [if_neg hxy]
              exact hrow.1.concat_ne hxy hleft
          exact ⟨hhere, ih hrow.2 hrow.1 hhere⟩

/-- The last row is right. -/
theorem isRow_lastRow (xs ys : List α) : IsRow [] ys xs (lastRow xs ys) := by
  have hrows (done ys : List α) (row : List Nat) (hrow : IsRow [] done xs row) :
      IsRow [] (done ++ ys) xs
        (ys.foldl (fun row y => Subsequence.nextRow y xs 0 0 row) row) := by
    induction ys generalizing done row with
    | nil => simpa using hrow
    | cons y ys ih =>
        rw [append_cons]
        exact ih _ _ (hrow.nextRow (isLongest_nil_left _) (isLongest_nil_left _))
  exact hrows [] ys _ (isRow_zeros [] xs)

/-- The last entry of the last row is right. -/
theorem isLongest_getLastD_lastRow (xs ys : List α) :
    IsLongest xs ys ((lastRow xs ys).getLastD 0) :=
  (isRow_lastRow xs ys).getLastD (isLongest_nil_left ys)

/-- The result is right, whichever list the rows go along. -/
theorem isLongest_longestCommon (xs ys : List α) : IsLongest xs ys (longestCommon xs ys) := by
  unfold longestCommon
  split
  · exact (isLongest_getLastD_lastRow ys xs).symm
  · exact isLongest_getLastD_lastRow xs ys

/-- The result does not depend on which list is which. -/
theorem longestCommon_comm (xs ys : List α) : longestCommon xs ys = longestCommon ys xs :=
  (isLongest_longestCommon xs ys).unique (isLongest_longestCommon ys xs).symm

/-- All of a list is in common with itself. -/
theorem longestCommon_self (xs : List α) : longestCommon xs xs = xs.length :=
  (isLongest_longestCommon xs xs).unique (isLongest_self xs)

/-- **The rows compute the greatest length of a common subsequence.** So the order of the lists does
not matter, the result is at most the length of the shorter list, and it is the length of a list
exactly if that is a subsequence of the other. -/
theorem longestCommon_isGreatest (xs ys : List α) :
    IsGreatest {k | ∃ zs, zs <+ xs ∧ zs <+ ys ∧ zs.length = k} (longestCommon xs ys) ∧
      longestCommon xs ys = longestCommon ys xs ∧
      longestCommon xs ys ≤ min xs.length ys.length ∧
      (longestCommon xs ys = xs.length ↔ xs <+ ys) := by
  have h := isLongest_longestCommon xs ys
  exact ⟨h.isGreatest, longestCommon_comm xs ys, Nat.le_min.mpr ⟨h.le_length, h.symm.le_length⟩,
    h.eq_length_iff⟩

end Pathwise.Subsequence
