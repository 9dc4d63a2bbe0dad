import Mathlib.Data.Int.Order.Basic
import Mathlib.Data.List.Forall2
import Mathlib.Data.List.Perm.Subperm
import Pathwise.Matching
import Pathwise.Proofs.Sorting

/-!
# The greedy matching

Choosing pairs one after the other, each time the first both of whose paths are free, gives a
matching that cannot be extended.

* **A matching** (`Matching.isMatching_chosen`): no path is in two of the chosen pairs.
* **Stopping** (`Matching.Taken.full`): once there is no room for more pairs, the smaller program is
  taken whole, so that no pair is lost by stopping there.
* **Maximal** (`Matching.exists_mem_chosen_of_pairwise`): every scored pair shares a path with a
  chosen one that did not come later. So if all pairs are scored, the smaller program has none of
  its paths left over (`Matching.length_chosen`).
* **Left over** (`Matching.append_leftPlaces_perm`): each place of a program is in a chosen pair or
  left over, and not both.
-/

namespace Pathwise.Matching

variable {sorter : Sorter} {as bs : List Profile} {pairs pairs' : List ScoredPair}
  {takenA takenB : List Nat}

/-- Pairs no two of which share a path. -/
structure IsMatching (pairs : List ScoredPair) : Prop where
  nodupA : (pairs.map (·.a)).Nodup
  nodupB : (pairs.map (·.b)).Nodup

/-- The order of pairs does not matter. -/
theorem IsMatching.perm (h : IsMatching pairs) (hperm : pairs.Perm pairs') : IsMatching pairs' :=
  ⟨(hperm.map _).nodup_iff.mp h.nodupA, (hperm.map _).nodup_iff.mp h.nodupB⟩

/-! ### Numbers below a bound -/

/-- A list that is shorter than a bound leaves out a number below the bound. -/
theorem exists_lt_notMem {l : List Nat} {n : Nat} (h : l.length < n) : ∃ i < n, i ∉ l := by
  by_contra hall
  have hsubset : List.range n ⊆ l := by
    intro i hi
    by_contra hl
    exact hall ⟨i, List.mem_range.mp hi, hl⟩
  have hle := (List.nodup_range.subperm hsubset).length_le
  rw [List.length_range] at hle
  omega

/-- Different numbers below a bound are not more than the bound. -/
theorem length_le_of_nodup {l : List Nat} {n : Nat} (hnodup : l.Nodup) (hlt : ∀ i ∈ l, i < n) :
    l.length ≤ n := by
  have hsubset : l ⊆ List.range n := fun i hi => List.mem_range.mpr (hlt i hi)
  simpa using (hnodup.subperm hsubset).length_le

/-- As many different numbers below a bound as there can be are all of them. -/
theorem mem_of_length_eq {l : List Nat} {n i : Nat} (hnodup : l.Nodup) (hlt : ∀ i ∈ l, i < n)
    (hlength : l.length = n) (hi : i < n) : i ∈ l := by
  by_contra hnot
  have hle : (i :: l).length ≤ n :=
    length_le_of_nodup (List.nodup_cons.mpr ⟨hnot, hnodup⟩) (List.forall_mem_cons.mpr ⟨hi, hlt⟩)
  simp only [List.length_cons] at hle
  omega

/-! ### Choosing -/

/-- The chosen pairs are among the given ones, in the same order. -/
theorem choose_sublist {room : Nat} : (choose room takenA takenB pairs).Sublist pairs := by
  fun_induction choose room takenA takenB pairs with
  | case1 => exact List.nil_sublist _
  | case2 => exact List.Sublist.refl _
  | case3 room takenA takenB x xs _ ih => exact ih.cons _
  | case4 room takenA takenB x xs _ ih => exact ih.cons_cons _

/-- Only free paths are chosen. -/
theorem free_of_mem_choose {room : Nat} {x : ScoredPair}
    (hx : x ∈ choose room takenA takenB pairs) : x.a ∉ takenA ∧ x.b ∉ takenB := by
  fun_induction choose room takenA takenB pairs with
  | case1 => cases hx
  | case2 => cases hx
  | case3 room takenA takenB y ys _ ih => exact ih hx
  | case4 room takenA takenB y ys hfree ih =>
      rcases List.mem_cons.mp hx with rfl | hx
      · simpa using hfree
      · obtain ⟨ha, hb⟩ := ih hx
        exact ⟨fun h => ha (List.mem_cons_of_mem _ h), fun h => hb (List.mem_cons_of_mem _ h)⟩

/-- No two chosen pairs share a path. -/
theorem isMatching_choose {room : Nat} : IsMatching (choose room takenA takenB pairs) := by
  fun_induction choose room takenA takenB pairs with
  | case1 => exact ⟨List.nodup_nil, List.nodup_nil⟩
  | case2 => exact ⟨List.nodup_nil, List.nodup_nil⟩
  | case3 room takenA takenB x xs _ ih => exact ih
  | case4 room takenA takenB x xs _ ih =>
      -- once a path is taken, no later pair has it
      refine ⟨List.nodup_cons.mpr ⟨?_, ih.nodupA⟩, List.nodup_cons.mpr ⟨?_, ih.nodupB⟩⟩
      · intro h
        obtain ⟨y, hy, hya⟩ := List.mem_map.mp h
        exact (free_of_mem_choose hy).1 (hya ▸ List.mem_cons_self)
      · intro h
        obtain ⟨y, hy, hyb⟩ := List.mem_map.mp h
        exact (free_of_mem_choose hy).2 (hyb ▸ List.mem_cons_self)

/-- The places that are taken, of `m` and `n`, when there is room for some more pairs. -/
structure Taken (m n room : Nat) (takenA takenB : List Nat) : Prop where
  nodupA : takenA.Nodup
  nodupB : takenB.Nodup
  ltA : ∀ i ∈ takenA, i < m
  ltB : ∀ j ∈ takenB, j < n
  lengthA : takenA.length + room = min m n
  lengthB : takenB.length + room = min m n

/-- At first nothing is taken, and there is room for as many pairs as the smaller program has
paths. -/
theorem taken_nil (m n : Nat) : Taken m n (min m n) [] [] where
  nodupA := List.nodup_nil
  nodupB := List.nodup_nil
  ltA _ h := nomatch h
  ltB _ h := nomatch h
  lengthA := Nat.zero_add _
  lengthB := Nat.zero_add _

/-- Taking a pair of free places uses up room. -/
theorem Taken.cons {m n room : Nat} (h : Taken m n (room + 1) takenA takenB) {i j : Nat}
    (hi : i < m) (hj : j < n) (hfreeA : i ∉ takenA) (hfreeB : j ∉ takenB) :
    Taken m n room (i :: takenA) (j :: takenB) where
  nodupA := List.nodup_cons.mpr ⟨hfreeA, h.nodupA⟩
  nodupB := List.nodup_cons.mpr ⟨hfreeB, h.nodupB⟩
  ltA := List.forall_mem_cons.mpr ⟨hi, h.ltA⟩
  ltB := List.forall_mem_cons.mpr ⟨hj, h.ltB⟩
  lengthA := by
    have := h.lengthA
    simp only [List.length_cons]
    omega
  lengthB := by
    have := h.lengthB
    simp only [List.length_cons]
    omega

/-- When there is no room left, the smaller program has no free path. -/
theorem Taken.full {m n : Nat} (h : Taken m n 0 takenA takenB) {i j : Nat} (hi : i < m)
    (hj : j < n) : i ∈ takenA ∨ j ∈ takenB := by
  have hA := h.lengthA
  have hB := h.lengthB
  rcases Nat.le_total m n with hle | hle
  · exact .inl (mem_of_length_eq h.nodupA h.ltA (by omega) hi)
  · exact .inr (mem_of_length_eq h.nodupB h.ltB (by omega) hj)

/-- A pair is passed over only because one of its paths is taken, before or by a pair that does not
come later. Stopping early passes over no other pairs, since by then one side is taken whole. -/
theorem taken_of_mem {R : ScoredPair → ScoredPair → Prop} {m n room : Nat}
    (hsorted : pairs.Pairwise R) (hrange : ∀ x ∈ pairs, x.a < m ∧ x.b < n)
    (htaken : Taken m n room takenA takenB) {x : ScoredPair} (hx : x ∈ pairs) :
    x.a ∈ takenA ∨ x.b ∈ takenB ∨
      ∃ y ∈ choose room takenA takenB pairs, (y.a = x.a ∨ y.b = x.b) ∧ (y = x ∨ R y x) := by
  fun_induction choose room takenA takenB pairs with
  | case1 =>
      obtain ⟨ha, hb⟩ := hrange x hx
      exact (htaken.full ha hb).imp_right .inl
  | case2 => cases hx
  | case3 room takenA takenB y ys hpassed ih =>
      rcases List.mem_cons.mp hx with rfl | hx
      · have hpassed' : x.a ∈ takenA ∨ x.b ∈ takenB := by simpa using hpassed
        exact hpassed'.imp_right .inl
      · exact ih hsorted.of_cons (List.forall_mem_cons.mp hrange).2 htaken hx
  | case4 room takenA takenB y ys hfree ih =>
      rcases List.mem_cons.mp hx with rfl | hx
      · exact .inr (.inr ⟨x, List.mem_cons_self, .inl rfl, .inl rfl⟩)
      · obtain ⟨hfirst, hsorted⟩ := List.pairwise_cons.mp hsorted
        obtain ⟨⟨ha, hb⟩, hrange⟩ := List.forall_mem_cons.mp hrange
        have hyx : R y x := hfirst x hx
        have hfree' : y.a ∉ takenA ∧ y.b ∉ takenB := by simpa using hfree
        rcases ih hsorted hrange (htaken.cons ha hb hfree'.1 hfree'.2) hx with h | h | ⟨z, hz, hzx⟩
        · rcases List.mem_cons.mp h with h | h
          · exact .inr (.inr ⟨y, List.mem_cons_self, .inl h.symm, .inr hyx⟩)
          · exact .inl h
        · rcases List.mem_cons.mp h with h | h
          · exact .inr (.inr ⟨y, List.mem_cons_self, .inr h.symm, .inr hyx⟩)
          · exact .inr (.inl h)
        · exact .inr (.inr ⟨z, List.mem_cons_of_mem _ hz, hzx⟩)

/-! ### The chosen pairs -/

/-- Ordering keeps all pairs. -/
theorem ordered_perm : (ordered sorter as bs pairs).Perm pairs :=
  sorter.perm _ _

/-- The chosen pairs are those that the loop chooses, sorted. -/
theorem chosen_perm :
    (chosen sorter as bs pairs).Perm
      (choose (min as.length bs.length) [] [] (ordered sorter as bs pairs)) :=
  sorter.perm _ _

/-- Each path is in at most one chosen pair. -/
theorem isMatching_chosen : IsMatching (chosen sorter as bs pairs) :=
  isMatching_choose.perm chosen_perm.symm

/-- Only pairs that were scored are chosen. -/
theorem mem_of_mem_chosen {x : ScoredPair} (hx : x ∈ chosen sorter as bs pairs) : x ∈ pairs :=
  ordered_perm.mem_iff.mp (choose_sublist.subset (chosen_perm.mem_iff.mp hx))

section InRange

variable (hrange : ∀ x ∈ pairs, x.a < as.length ∧ x.b < bs.length)

include hrange

/-- Every scored pair shares a path with a chosen one that did not come later. -/
theorem exists_mem_chosen_of_pairwise {R : ScoredPair → ScoredPair → Prop}
    (hsorted : (ordered sorter as bs pairs).Pairwise R) {x : ScoredPair} (hx : x ∈ pairs) :
    ∃ y ∈ chosen sorter as bs pairs, (y.a = x.a ∨ y.b = x.b) ∧ (y = x ∨ R y x) := by
  have hordered : ∀ y ∈ ordered sorter as bs pairs, y.a < as.length ∧ y.b < bs.length :=
    fun y hy => hrange y (ordered_perm.mem_iff.mp hy)
  have hx' : x ∈ ordered sorter as bs pairs := ordered_perm.mem_iff.mpr hx
  rcases taken_of_mem hsorted hordered (taken_nil _ _) hx' with h | h | ⟨y, hy, hyx⟩
  · cases h
  · cases h
  · exact ⟨y, chosen_perm.mem_iff.mpr hy, hyx⟩

/-- A scored pair shares a path with a chosen one: it was chosen itself, or could not be. -/
theorem exists_mem_chosen {x : ScoredPair} (hx : x ∈ pairs) :
    ∃ y ∈ chosen sorter as bs pairs, y.a = x.a ∨ y.b = x.b := by
  have hsorted : (ordered sorter as bs pairs).Pairwise fun _ _ => True :=
    List.pairwise_of_forall fun _ _ => trivial
  obtain ⟨y, hy, hyx, -⟩ := exists_mem_chosen_of_pairwise hrange hsorted hx
  exact ⟨y, hy, hyx⟩

/-- The chosen places are places in the first program. -/
theorem chosenA_lt : ∀ i ∈ (chosen sorter as bs pairs).map (·.a), i < as.length := by
  intro i hi
  obtain ⟨x, hx, rfl⟩ := List.mem_map.mp hi
  exact (hrange x (mem_of_mem_chosen hx)).1

/-- The chosen places on the other side are places in the second program. -/
theorem chosenB_lt : ∀ j ∈ (chosen sorter as bs pairs).map (·.b), j < bs.length := by
  intro j hj
  obtain ⟨x, hx, rfl⟩ := List.mem_map.mp hj
  exact (hrange x (mem_of_mem_chosen hx)).2

/-- If all pairs are scored, as many are chosen as there can be. -/
theorem length_chosen
    (hall : ∀ i < as.length, ∀ j < bs.length, ∃ x ∈ pairs, x.a = i ∧ x.b = j) :
    (chosen sorter as bs pairs).length = min as.length bs.length := by
  have hmatching : IsMatching (chosen sorter as bs pairs) := isMatching_chosen
  have hA := length_le_of_nodup hmatching.nodupA (chosenA_lt hrange)
  have hB := length_le_of_nodup hmatching.nodupB (chosenB_lt hrange)
  by_contra hne
  rw [List.length_map] at hA hB
  -- two paths are left over, but their pair was scored
  obtain ⟨i, hi, hia⟩ : ∃ i < as.length, i ∉ (chosen sorter as bs pairs).map (·.a) :=
    exists_lt_notMem (by rw [List.length_map]; omega)
  obtain ⟨j, hj, hjb⟩ : ∃ j < bs.length, j ∉ (chosen sorter as bs pairs).map (·.b) :=
    exists_lt_notMem (by rw [List.length_map]; omega)
  obtain ⟨x, hx, rfl, rfl⟩ := hall i hi j hj
  obtain ⟨y, hy, h | h⟩ := exists_mem_chosen hrange hx
  · exact hia (List.mem_map.mpr ⟨y, hy, h⟩)
  · exact hjb (List.mem_map.mpr ⟨y, hy, h⟩)

end InRange

/-! ### Rows and what is left over -/

/-- Where all members have a value, the values are listed in their order. -/
theorem forall₂_filterMap {α β : Type} {f : α → Option β} {l : List α}
    (h : ∀ x ∈ l, (f x).isSome) : List.Forall₂ (fun y x => f x = some y) (l.filterMap f) l := by
  induction l with
  | nil => exact .nil
  | cons x l ih =>
      obtain ⟨hx, hl⟩ := List.forall_mem_cons.mp h
      obtain ⟨y, hy⟩ := Option.isSome_iff_exists.mp hx
      rw [List.filterMap_cons_some hy]
      exact .cons hy (ih hl)

/-- A row is that of the paths at its two places. -/
theorem row?_eq_some_iff {x : ScoredPair} {row : PairResult} : row? as bs x = some row ↔
    ∃ p, as[x.a]? = some p ∧ ∃ q, bs[x.b]? = some q ∧ .matched p q x.verdict = row := by
  simp [row?, bind, Option.bind_eq_some_iff, pure]

/-- A pair of places that exist has a row. -/
theorem row?_eq_some {x : ScoredPair} (ha : x.a < as.length) (hb : x.b < bs.length) :
    row? as bs x = some (.matched as[x.a] bs[x.b] x.verdict) := by
  simp [row?, ha, hb]

/-- Pairs of places that exist have a row each. -/
theorem forall₂_row? (hrange : ∀ x ∈ pairs, x.a < as.length ∧ x.b < bs.length) :
    List.Forall₂ (fun row x => row? as bs x = some row) (pairs.filterMap (row? as bs)) pairs := by
  refine forall₂_filterMap fun x hx => ?_
  obtain ⟨ha, hb⟩ := hrange x hx
  rw [row?_eq_some ha hb]
  rfl

/-- The places of the paths that are left over, sorted by their index. -/
def leftPlaces (sorter : Sorter) (paths : List Profile) (taken : List Nat) : List Nat :=
  byIndex sorter paths ((List.range paths.length).filter (· ∉ taken))

/-- The places that are left are all that are not taken. -/
theorem leftPlaces_perm (sorter : Sorter) (paths : List Profile) (taken : List Nat) :
    (leftPlaces sorter paths taken).Perm ((List.range paths.length).filter (· ∉ taken)) :=
  sorter.perm _ _

/-- A place is left just if it is not taken. -/
theorem mem_leftPlaces {paths : List Profile} {taken : List Nat} {i : Nat} :
    i ∈ leftPlaces sorter paths taken ↔ i < paths.length ∧ i ∉ taken := by
  simp [(leftPlaces_perm sorter paths taken).mem_iff]

/-- The paths that are left over are those at the places that are. -/
theorem forall₂_leftOver (sorter : Sorter) (paths : List Profile) (taken : List Nat) :
    List.Forall₂ (fun p i => paths[i]? = some p) (leftOver sorter paths taken)
      (leftPlaces sorter paths taken) :=
  forall₂_filterMap fun i hi => by simp [mem_leftPlaces.mp hi]

/-- A place is taken or left over, and not both. -/
theorem append_leftPlaces_perm (sorter : Sorter) (paths : List Profile) {taken : List Nat}
    (hnodup : taken.Nodup) (hlt : ∀ i ∈ taken, i < paths.length) :
    (taken ++ leftPlaces sorter paths taken).Perm (List.range paths.length) := by
  have htaken : taken.Perm ((List.range paths.length).filter (· ∈ taken)) := by
    refine (List.perm_ext_iff_of_nodup hnodup (List.nodup_range.filter _)).mpr fun i => ?_
    simpa using hlt i
  have hsplit := List.filter_append_perm (· ∈ taken) (List.range paths.length)
  simp only [← decide_not] at hsplit
  exact (htaken.append (leftPlaces_perm sorter paths taken)).trans hsplit

/-- Each path is taken or left over. -/
theorem length_leftOver (sorter : Sorter) (paths : List Profile) {taken : List Nat}
    (hnodup : taken.Nodup) (hlt : ∀ i ∈ taken, i < paths.length) :
    (leftOver sorter paths taken).length + taken.length = paths.length := by
  have hlength := (append_leftPlaces_perm sorter paths hnodup hlt).length_eq
  rw [List.length_append, List.length_range] at hlength
  rw [(forall₂_leftOver sorter paths taken).length_eq]
  omega

/-! ### Sorting by index -/

/-- The chosen pairs are sorted by the index of the first path. -/
theorem pairwise_chosen (sorter : Sorter) (as bs : List Profile) (pairs : List ScoredPair) :
    (chosen sorter as bs pairs).Pairwise fun x y => indexAt as x.a ≤ indexAt as y.a :=
  sorter.pairwise_of_key fun _ _ _ _ => decide_eq_true_iff

/-- The places that are left are sorted by index. -/
theorem pairwise_leftPlaces (sorter : Sorter) (paths : List Profile) (taken : List Nat) :
    (leftPlaces sorter paths taken).Pairwise fun i j => indexAt paths i ≤ indexAt paths j :=
  sorter.pairwise_of_key fun _ _ _ _ => decide_eq_true_iff

end Pathwise.Matching
