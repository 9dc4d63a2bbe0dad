import Pathwise.Proofs.Decimal.Order
import Pathwise.Proofs.Matching.Completeness

/-!
# No pair blocks the greedy matching

Two paths block a matching if both would rather have each other than the partners they got. The
greedy matching leaves no such paths, as long as the scores can be compared at all.

* **Grades** (`Matching.graded_of_numbers`): scores that are numbers compare like their places, of
  which the highest is the best.
* **Stability** (`Matching.no_blocking_pair`): every scored pair shares a path with a chosen one
  that does not come after it.
-/

namespace Pathwise.Matching

variable {sorter : Sorter} {as bs : List Profile} {pairs : List ScoredPair}

/-- Scores that are numbers are grades, the higher the better. -/
theorem graded_of_numbers (hnumbers : ∀ x ∈ pairs, x.verdict.score.isNaN = false) :
    Graded pairs fun x => OrderDual.toDual (Decimal.place x.verdict.score) where
  ne x hx y hy := by
    rw [Decimal.bne_eq_place_bne (hnumbers x hx) (hnumbers y hy), Bool.eq_iff_iff, bne_iff_ne,
      bne_iff_ne, OrderDual.toDual_inj.ne]
  gt x hx y hy := by
    rw [gt_iff_lt, Decimal.lt_iff_place_lt (hnumbers y hy) (hnumbers x hx),
      OrderDual.toDual_lt_toDual]

/-- The order of ranks, in terms of scores and indices. -/
theorem Graded.rank_le_iff {γ : Type} [LinearOrder γ] {grade : ScoredPair → γ}
    (h : Graded pairs grade) {x y : ScoredPair} (hx : x ∈ pairs) (hy : y ∈ pairs) :
    rank as bs grade x ≤ rank as bs grade y ↔
      x.verdict.score > y.verdict.score ∨ (x.verdict.score == y.verdict.score) = true ∧
        (indexAt as x.a < indexAt as y.a ∨ indexAt as x.a = indexAt as y.a ∧
          indexAt bs x.b ≤ indexAt bs y.b) := by
  have hequal : (x.verdict.score == y.verdict.score) = true ↔ grade x = grade y := by
    have hsame := Bool.not_inj (h.ne x hx y hy)
    rw [hsame, beq_iff_eq]
  rw [rank, rank, Prod.Lex.toLex_le_toLex, Prod.Lex.toLex_le_toLex, h.gt x hx y hy, hequal]

/-- **No pair blocks the greedy matching.** Let all scores be numbers. Every scored pair, whether it
is chosen or not, shares a path with a chosen pair that does not come after it: one with a higher
score, or with the same score and a smaller index in the first program, or with the same of both and
no greater index in the second. -/
theorem no_blocking_pair (hrange : ∀ x ∈ pairs, x.a < as.length ∧ x.b < bs.length)
    (hnumbers : ∀ x ∈ pairs, x.verdict.score.isNaN = false) {x : ScoredPair} (hx : x ∈ pairs) :
    ∃ y ∈ chosen sorter as bs pairs, (y.a = x.a ∨ y.b = x.b) ∧
      (y.verdict.score > x.verdict.score ∨ (y.verdict.score == x.verdict.score) = true ∧
        (indexAt as y.a < indexAt as x.a ∨ indexAt as y.a = indexAt as x.a ∧
          indexAt bs y.b ≤ indexAt bs x.b)) := by
  have hgraded := graded_of_numbers hnumbers
  have hsorted : (ordered sorter as bs pairs).Pairwise _ := pairwise_rank hgraded
  obtain ⟨y, hy, hshare, hfirst⟩ := exists_mem_chosen_of_pairwise hrange hsorted hx
  refine ⟨y, hy, hshare, (hgraded.rank_le_iff (mem_of_mem_chosen hy) hx).mp ?_⟩
  rcases hfirst with rfl | hle
  · exact le_refl _
  · exact hle

/-- Of two pairs with one score, that whose path has the smaller index is chosen. -/
theorem no_blocking_pair_tied :
    let path (index : Int) : Profile := .ofPath ⟨index, "", "", [], [], [], .none⟩
    let as := [path 1]
    let bs := [path 2, path 1]
    let v : PairVerdict := { PairResult.leftVerdict "" with confidence := 0.5 }
    let x : ScoredPair := ⟨0, 0, v⟩
    let y : ScoredPair := ⟨0, 1, v⟩
    (∀ z ∈ [x, y], z.a < as.length ∧ z.b < bs.length) ∧
      (∀ z ∈ [x, y], z.verdict.score.isNaN = false) ∧ chosen .stable as bs [x, y] = [y] ∧
      ∃ z ∈ chosen .stable as bs [x, y], (z.a = x.a ∨ z.b = x.b) ∧
        (z.verdict.score > x.verdict.score ∨ (z.verdict.score == x.verdict.score) = true ∧
          (indexAt as z.a < indexAt as x.a ∨ indexAt as z.a = indexAt as x.a ∧
            indexAt bs z.b ≤ indexAt bs x.b)) := by
  intro path as bs v x y
  have hrange : ∀ z ∈ [x, y], z.a < as.length ∧ z.b < bs.length := by decide
  have hnumbers : ∀ z ∈ [x, y], z.verdict.score.isNaN = false := by decide +kernel
  have hfirst : precedes as bs y x = true := by decide +kernel
  have hordered : ordered .stable as bs [x, y] = [y, x] := by
    simp [ordered, Sorter.stable, List.mergeSort, List.MergeSort.Internal.splitInTwo, hfirst]
  have hchosen : chosen .stable as bs [x, y] = [y] := by
    rw [chosen, hordered]
    simp [Sorter.stable, choose, as, bs]
  exact ⟨hrange, hnumbers, hchosen, no_blocking_pair hrange hnumbers List.mem_cons_self⟩

end Pathwise.Matching
