import Mathlib.Data.List.Zip
import Pathwise.Proofs.Comparison.Agreement
import Pathwise.Proofs.Comparison.Subsequence
import Pathwise.Session.Basic

/-!
# Comparison is symmetric

Which of two paths comes first decides what reports say, and in which order. It does not decide
whether the paths are equivalent, nor how sure that is.

* **Memory** (`Memory.details_symm`, `Memory.same_compare`): the longest common subsequence and the
  relocated places are the same both ways, and the lengths are exchanged.
* **Aggregation** (`Aggregate.same_combine`): the verdict and the confidence depend on the verdicts
  and scores of the layers, and not on what they report.
* **Pairs** (`Session.compare_symmetric`): without an oracle, two paths get the same verdict, the
  same confidence and the same results in the layers both ways.
-/

namespace Pathwise

/-! ### Memory -/

namespace Memory

/-- Similarity is relative to the longer sequence, on whichever side it is. -/
theorem similarity_comm (common m n : Nat) : similarity common m n = similarity common n m := by
  unfold similarity
  rw [Bool.and_comm, Bool.or_comm, max_comm]

/-- Having the same shape is symmetric. -/
theorem sameShape_comm (a b : Access.Key) : sameShape a b = sameShape b a := by
  unfold sameShape
  rw [BEq.comm (a := a.kind), BEq.comm (a := a.base), BEq.comm (a := a.epoch)]

/-- Being relocated is symmetric. -/
theorem relocated_comm (xs ys : List Access.Key) : relocated xs ys = relocated ys xs := by
  have hall : (ys.zip xs).all (fun p => sameShape p.1 p.2) =
      (xs.zip ys).all (fun p => sameShape p.1 p.2) := by
    rw [← List.zip_swap, List.all_map]
    congr 1
    funext p
    exact sameShape_comm _ _
  have hplaces : ((ys.zip xs).zipIdx.filter fun p => p.1.1.position != p.1.2.position).map (·.2) =
      ((xs.zip ys).zipIdx.filter fun p => p.1.1.position != p.1.2.position).map (·.2) := by
    rw [← List.zip_swap, List.zipIdx_map, List.filter_map, List.map_map]
    congr 1
    refine List.filter_congr ?_
    intro p _
    exact bne_comm
  have hlength : decide (xs.length = ys.length) = decide (ys.length = xs.length) :=
    decide_eq_decide.mpr eq_comm
  simp only [relocated]
  rw [hall, hplaces, hlength]

/-- The details of a comparison the other way round have the lengths exchanged. -/
theorem details_symm (policy : AddressPolicy) (as bs : List Access) :
    details policy bs as =
      { details policy as bs with lengthA := bs.length, lengthB := as.length } := by
  simp only [details, Details.mk.injEq, true_and]
  refine ⟨?_, ?_, ?_⟩
  · rw [Subsequence.longestCommon_comm, similarity_comm]
  · rw [Subsequence.longestCommon_comm]
  · exact relocated_comm _ _

/-- Exchanging the lengths does not change what is judged. -/
theorem judge_symm (t : Thresholds) (d : Details) :
    judge t { d with lengthA := d.lengthB, lengthB := d.lengthA } = judge t d := by
  unfold judge
  rw [Bool.and_comm]

/-- Memory is compared alike from both sides. -/
theorem same_compare (policy : AddressPolicy) (t : Thresholds) (a b : Profile) :
    (compare policy t a b).Same (compare policy t b a) := by
  constructor
  · simp only [compare]
    rw [details_symm]
    exact (judge_symm t _).symm
  · simp only [compare]
    rw [details_symm]

end Memory

/-! ### Aggregation -/

/-- A result without what it reports. -/
def LayerResult.silent (r : LayerResult) : LayerResult :=
  { r with detail := "" }

theorem Layered.toList_map {α β : Type} (f : α → β) (x : Layered α) :
    (x.map f).toList = x.toList.map f := rfl

namespace Aggregate

variable (layers : Layered LayerResult) (w : Weights)

/-- The overall verdict does not depend on details. -/
theorem overall_silent : overall (layers.map LayerResult.silent) = overall layers := by
  unfold overall
  rw [Layered.toList_map, List.any_map, List.all_map]
  rfl

/-- The confidence in a difference does not depend on details. -/
theorem differenceConfidence_silent (v : Verdict) :
    differenceConfidence v (layers.map LayerResult.silent) w = differenceConfidence v layers w := by
  unfold differenceConfidence heaviest
  rw [Layered.toList_map, List.foldl_map]
  rfl

/-- The weighted score does not depend on details. -/
theorem weightedScore_silent :
    weightedScore (layers.map LayerResult.silent) w = weightedScore layers w := by
  unfold weightedScore
  rw [Layered.toList_map, List.foldl_map]
  rfl

/-- The confidence without a verdict does not depend on details. -/
theorem openConfidence_silent :
    openConfidence (layers.map LayerResult.silent) = openConfidence layers := by
  have hagreed : (layers.map LayerResult.silent).toList.filter (·.verdict == .equivalent) =
      (layers.toList.filter (·.verdict == .equivalent)).map LayerResult.silent := by
    rw [Layered.toList_map, List.filter_map]
    rfl
  unfold openConfidence
  rw [hagreed]
  cases layers.toList.filter (·.verdict == .equivalent) with
  | nil => rfl
  | cons r rs =>
      simp only [List.map_cons, List.foldl_cons, List.foldl_map, List.length_cons, List.length_map]
      rfl

/-- No confidence depends on details. -/
theorem confidence_silent : confidence (layers.map LayerResult.silent) w = confidence layers w := by
  unfold confidence
  rw [overall_silent, differenceConfidence_silent, weightedScore_silent, openConfidence_silent]

/-- What reports say has no part in the verdict on two paths and the confidence in it. -/
theorem same_combine {x y : Layered LayerResult} (h : ∀ l, (x.get l).Same (y.get l)) :
    (combine x w).verdict = (combine y w).verdict ∧
      (combine x w).confidence = (combine y w).confidence := by
  have hsilent : (placed x).map LayerResult.silent = (placed y).map LayerResult.silent := by
    simp only [placed, Layered.ofFn, Layered.map, LayerResult.silent, (h _).verdict, (h _).score]
  constructor
  · show overall (placed x) = overall (placed y)
    rw [← overall_silent, hsilent, overall_silent]
  · show confidence (placed x) _ = confidence (placed y) _
    rw [← confidence_silent, hsilent, confidence_silent]

end Aggregate

/-! ### Pairs -/

/-- Outputs differ from both sides. -/
theorem Observed.differs_comm (x y : Observed) : x.differs y = y.differs x := by
  unfold differs
  rw [Bool.and_comm (!x.isNone), bne_comm]

/-- Two verdicts say the same with the same confidence, as a whole and in each layer. -/
structure PairVerdict.Same (v v' : PairVerdict) : Prop where
  verdict : v.verdict = v'.verdict
  confidence : v.confidence = v'.confidence
  layers : ∀ l, (v.layers.get l).Same (v'.layers.get l)

/-- The verdict on two paths depends on the verdicts and scores of the layers alone. -/
theorem PairVerdict.same_combine {x y : Layered LayerResult} (w : Weights)
    (h : ∀ l, (x.get l).Same (y.get l)) :
    (Aggregate.combine x w).Same (Aggregate.combine y w) := by
  obtain ⟨hverdict, hconfidence⟩ := Aggregate.same_combine w h
  refine ⟨hverdict, hconfidence, ?_⟩
  intro l
  have hplaced := h l
  cases l <;> exact ⟨hplaced.verdict, hplaced.score⟩

namespace Session

variable (s : Settings) {a b : Profile}

/-- The layers are compared alike from both sides. -/
theorem same_structural (p q : Path) :
    (structural s (.ofPath p) (.ofPath q)).Same (structural s (.ofPath q) (.ofPath p)) := by
  have hcontrol : (ControlFlow.compare (.ofPath p) (.ofPath q)).Same
      (ControlFlow.compare (.ofPath q) (.ofPath p)) :=
    (ControlFlow.decides_compare p.length_domains q.length_domains).same
      (ControlFlow.decides_compare q.length_domains p.length_domains) eq_comm
  have htransform : (Transform.compare (.ofPath p) (.ofPath q)).Same
      (Transform.compare (.ofPath q) (.ofPath p)) :=
    (Transform.decides_compare _ _).same (Transform.decides_compare _ _) List.perm_comm
  refine PairVerdict.same_combine s.weights fun l => ?_
  cases l with
  | controlFlow => exact hcontrol
  | memory => exact Memory.same_compare _ _ _ _
  | transform => exact htransform

/-- Outputs that differ change verdicts that say the same in the same way. -/
theorem same_withOutputs {v v' : PairVerdict} (h : v.Same v') :
    (withOutputs a b v).Same (withOutputs b a v') := by
  unfold withOutputs
  by_cases hv : v.verdict = .notEquivalent
  · rw [if_pos hv, if_pos (h.verdict ▸ hv)]
    exact ⟨h.verdict, h.confidence, h.layers⟩
  · rw [if_neg hv, if_neg (h.verdict ▸ hv)]
    exact ⟨rfl, congrArg (· * 0.5) h.confidence, h.layers⟩

/-- Without an oracle the verdict is that of the layers and, unless they are ignored, of the
outputs. -/
theorem verdict_judge_of_no_oracle {s : Settings} (h : s.oracle = none) (turn : Turn) :
    (judge s turn a b).verdict =
      if !s.ignoreOutputs && a.path.output.differs b.path.output then
        withOutputs a b (structural s a b)
      else structural s a b := by
  unfold judge
  split
  · rfl
  · simp only [h]
    cases (structural s a b).verdict <;> rfl

/-- Without an oracle and with nothing remembered, it does not matter which of two paths comes
first: the verdict, the confidence in it and the verdict and score in each layer are the same, under
all settings. -/
theorem compare_symmetric {M : VerdictMap} (turn turn' : Turn) (p q : Path) (st st' : Session M) :
    (compare { s with oracle := none, cacheSize := none } turn (.ofPath p) (.ofPath q) st).1.Same
      (compare { s with oracle := none, cacheSize := none } turn' (.ofPath q)
        (.ofPath p) st').1 := by
  show (judge _ turn _ _).verdict.Same (judge _ turn' _ _).verdict
  rw [verdict_judge_of_no_oracle rfl, verdict_judge_of_no_oracle rfl,
    Observed.differs_comm (Profile.ofPath q).path.output]
  split
  · exact same_withOutputs (same_structural _ p q)
  · exact same_structural _ p q

end Session

end Pathwise
