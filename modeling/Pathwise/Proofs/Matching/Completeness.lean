import Mathlib.Algebra.BigOperators.Fin
import Mathlib.Data.Prod.Lex
import Pathwise.Proofs.Matching.Greedy

/-!
# When the greedy matching is complete

Choosing the best pair first can spoil a matching of all paths: a path can be taken by a partner
that another path needs more. This does not happen if the pairs that are preferred are those of
paths of one kind, since then a partner that is gone went to a path of the same kind.

* **Order** (`Matching.pairwise_rank`): if scores compare like grades, better grades come first, and
  of one grade smaller indices. All that is asked of the scores is how they compare on the pairs at
  hand.
* **Stability** (`Matching.exists_mem_chosen_le`): every scored pair shares a path with a chosen one
  of the same or a better grade.
* **Completeness** (`Matching.sameKind_of_mem`): if the paths can be matched kind by kind, a stable
  matching does it.
-/

namespace Pathwise.Matching

variable {sorter : Sorter} {as bs : List Profile} {pairs : List ScoredPair}
  {γ : Type} [LinearOrder γ] {grade : ScoredPair → γ}

/-! ### Order -/

/-- The scores of some pairs compare like their grades, of which the least is the best. -/
structure Graded (pairs : List ScoredPair) (grade : ScoredPair → γ) : Prop where
  ne : ∀ x ∈ pairs, ∀ y ∈ pairs, (x.verdict.score != y.verdict.score) = (grade x != grade y)
  gt : ∀ x ∈ pairs, ∀ y ∈ pairs, x.verdict.score > y.verdict.score ↔ grade x < grade y

/-- What decides when a pair is chosen: its grade, and then the indices of its paths. -/
def rank (as bs : List Profile) (grade : ScoredPair → γ) (x : ScoredPair) : γ ×ₗ Int ×ₗ Int :=
  toLex (grade x, toLex (indexAt as x.a, indexAt bs x.b))

/-- Graded pairs are ordered by their ranks. -/
theorem Graded.precedes_iff (h : Graded pairs grade) {x y : ScoredPair} (hx : x ∈ pairs)
    (hy : y ∈ pairs) :
    precedes as bs x y = true ↔ rank as bs grade x < rank as bs grade y := by
  unfold precedes rank
  rw [Prod.Lex.toLex_lt_toLex, Prod.Lex.toLex_lt_toLex]
  simp only [h.ne x hx y hy, bne_iff_ne]
  split
  · rename_i hne
    rw [decide_eq_true_iff, h.gt x hx y hy]
    exact ⟨.inl, fun hlt => hlt.resolve_right fun heq => hne heq.1⟩
  · rename_i heq
    rw [not_not] at heq
    split <;> simp_all

/-- Pairs are ordered by their ranks. -/
theorem pairwise_rank (h : Graded pairs grade) :
    (ordered sorter as bs pairs).Pairwise fun x y => rank as bs grade x ≤ rank as bs grade y :=
  sorter.pairwise_of_key fun _ hx _ hy => h.precedes_iff hx hy

/-- Pairs are ordered by their grades. -/
theorem pairwise_ordered (h : Graded pairs grade) :
    (ordered sorter as bs pairs).Pairwise fun x y => grade x ≤ grade y :=
  (pairwise_rank h).imp fun hle =>
    (Prod.Lex.toLex_le_toLex.mp hle).elim le_of_lt fun heq => heq.1.le

/-! ### Stability -/

/-- Every scored pair shares a path with a chosen one that is at least as good. -/
theorem exists_mem_chosen_le (hrange : ∀ x ∈ pairs, x.a < as.length ∧ x.b < bs.length)
    (h : Graded pairs grade) {x : ScoredPair} (hx : x ∈ pairs) :
    ∃ y ∈ chosen sorter as bs pairs, (y.a = x.a ∨ y.b = x.b) ∧ grade y ≤ grade x := by
  obtain ⟨y, hy, hyx, rfl | hle⟩ := exists_mem_chosen_of_pairwise hrange (pairwise_ordered h) hx
  · exact ⟨y, hy, hyx, le_refl _⟩
  · exact ⟨y, hy, hyx, hle⟩

/-! ### Completeness -/

/-- A bijection of paths of one kind has equally many of each kind on both sides. -/
theorem card_kind {κ : Type} [DecidableEq κ] {f g : Nat → κ} {m n : Nat} (σ : Fin m ≃ Fin n)
    (hσ : ∀ i : Fin m, f i = g (σ i)) (k : κ) :
    ((Finset.range m).filter (f · = k)).card = ((Finset.range n).filter (g · = k)).card := by
  rw [Finset.card_filter, Finset.card_filter,
    ← Fin.sum_univ_eq_sum_range (fun i => if f i = k then 1 else 0) m,
    ← Fin.sum_univ_eq_sum_range (fun j => if g j = k then 1 else 0) n, ← Equiv.sum_comp σ]
  simp only [hσ]

/-- If some bijection matches paths of one kind only, so does every matching in which no two paths
of one kind are passed over for others. -/
theorem sameKind_of_mem {κ : Type} {f g : Nat → κ} {m n : Nat} (σ : Fin m ≃ Fin n)
    (hσ : ∀ i : Fin m, f i = g (σ i)) (hmatching : IsMatching pairs)
    (hrange : ∀ x ∈ pairs, x.a < m ∧ x.b < n)
    (hstable : ∀ i < m, ∀ j < n, f i = g j →
      ∃ y ∈ pairs, (y.a = i ∨ y.b = j) ∧ f y.a = g y.b) :
    ∀ x ∈ pairs, f x.a = g x.b := by
  classical
  intro x hx
  by_contra hne
  obtain ⟨ha, hb⟩ := hrange x hx
  -- the pairs of the kind of this path, which it is not in
  let same := pairs.filter fun y => f y.a = f x.a ∧ g y.b = f x.a
  have hsublist : same.Sublist pairs := List.filter_sublist
  have hB : (Finset.range n).filter (g · = f x.a) ⊆ (same.map (·.b)).toFinset := by
    intro j hj
    obtain ⟨hj, hkind⟩ := Finset.mem_filter.mp hj
    obtain ⟨y, hy, hya | hyb, hkind'⟩ := hstable x.a ha j (Finset.mem_range.mp hj) hkind.symm
    · obtain rfl : y = x := List.inj_on_of_nodup_map hmatching.nodupA hy hx hya
      exact absurd hkind' hne
    · rw [hyb, hkind] at hkind'
      have hsame : y ∈ same := List.mem_filter.mpr ⟨hy, by simp [hkind', hyb, hkind]⟩
      exact List.mem_toFinset.mpr (List.mem_map.mpr ⟨y, hsame, hyb⟩)
  have hA : (same.map (·.a)).toFinset ⊆ ((Finset.range m).filter (f · = f x.a)).erase x.a := by
    intro i hi
    obtain ⟨y, hy, rfl⟩ := List.mem_map.mp (List.mem_toFinset.mp hi)
    obtain ⟨hy, hkind⟩ := List.mem_filter.mp hy
    have hkind : f y.a = f x.a ∧ g y.b = f x.a := of_decide_eq_true hkind
    refine Finset.mem_erase.mpr ⟨fun hya => ?_, Finset.mem_filter.mpr
      ⟨Finset.mem_range.mpr (hrange y hy).1, hkind.1⟩⟩
    obtain rfl : y = x := List.inj_on_of_nodup_map hmatching.nodupA hy hx hya
    exact hne hkind.2.symm
  -- so one path of the kind has no partner of the kind left
  have hcount : ((Finset.range n).filter (g · = f x.a)).card
      < ((Finset.range m).filter (f · = f x.a)).card :=
    calc
      _ ≤ (same.map (·.b)).toFinset.card := Finset.card_le_card hB
      _ ≤ (same.map (·.a)).length := by
        rw [List.length_map, ← List.length_map (·.b)]
        exact List.toFinset_card_le _
      _ = (same.map (·.a)).toFinset.card :=
        (List.toFinset_card_of_nodup (hmatching.nodupA.sublist (hsublist.map _))).symm
      _ ≤ _ := Finset.card_le_card hA
      _ < _ := Finset.card_erase_lt_of_mem
        (Finset.mem_filter.mpr ⟨Finset.mem_range.mpr ha, rfl⟩)
  exact absurd (card_kind σ hσ (f x.a)) hcount.ne'

end Pathwise.Matching
