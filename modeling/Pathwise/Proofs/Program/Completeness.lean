import Mathlib.Data.Multiset.Basic
import Pathwise.Proofs.Comparison.Symmetry
import Pathwise.Proofs.Matching.Completeness
import Pathwise.Proofs.Path.WellFormed
import Pathwise.Proofs.Program.Verdict
import Pathwise.Proofs.Term.Equality

/-!
# Equivalent programs without memory

A path without memory accesses and without an output is compared by its domains and its
transformations alone, so paths that are equivalent are of one kind. Choosing pairs greedily then
finds a bijection of equivalent paths whenever there is one.

* **Grades** (`Session.same_structural_plain`, `PairVerdict.plain_score`): under the default weights
  such pairs have one of three scores, and those of equivalent pairs are the highest.
* **Chosen pairs** (`Session.Scoring.equivalent_iff_chosen`): programs are equivalent if all paths
  are in chosen pairs, and all chosen pairs are equivalent.
* **Programs** (`Session.equivalent_iff_exists_bijection`): the verdict on two programs, without a
  word about the order in which pairs are chosen.
-/

namespace Pathwise

/-! ### Plain paths -/

namespace Profile

/-- A path that accesses no memory and has no recorded output, as comparisons see it. -/
structure Plain (x : Profile) : Prop where
  ofPath : x = .ofPath x.path
  noAccesses : x.accesses = []
  noOutput : x.path.output = .none

/-- What comparisons see of a plain path: the domains of its inputs, and its transformations in no
order. -/
def kind (x : Profile) : List Domain × Multiset Transformation :=
  (x.domains, x.transformations)

variable {a b : Profile}

/-- Paths are of one kind just if they have the same domains and, in some order, the same
transformations. -/
theorem kind_eq_iff :
    a.kind = b.kind ↔ a.domains = b.domains ∧ a.transformations.Perm b.transformations := by
  rw [kind, kind, Prod.mk.injEq, Multiset.coe_eq_coe]

/-- A plain path has a domain for each input. -/
theorem Plain.length_domains (h : a.Plain) : a.domains.length = a.path.inputs.length := by
  rw [h.ofPath]
  exact Path.length_domains _

end Profile

/-- The result of a layer in which paths agree or do not. -/
def LayerResult.decided (agree : Bool) : LayerResult :=
  ⟨.controlFlow, if agree then .equivalent else .notEquivalent, if agree then 1 else 0, ""⟩

/-- A result that decides a question says equivalent just if the answer is yes. -/
theorem LayerResult.Decides.equivalent_iff {r : LayerResult} {P : Prop} (h : r.Decides P) :
    r.verdict = .equivalent ↔ P := by
  by_cases hP : P
  · simp [hP, (h.agree hP).1]
  · simp [hP, (h.differ hP).1]

/-- A decided result decides its question. -/
theorem LayerResult.decides_decided (P : Prop) [Decidable P] : (decided (decide P)).Decides P :=
  ⟨fun h => by simp [decided, h], fun h => by simp [decided, h]⟩

namespace PairVerdict

/-- The verdict on plain paths that agree in control flow or not, and in transformations or not. -/
def plain (controlFlow transform : Bool) : PairVerdict :=
  Aggregate.combine ⟨.decided controlFlow, .decided true, .decided transform⟩ .default

/-- How good a pair of plain paths is: equivalent, or different in transformations or not. -/
def grade (v : PairVerdict) : Nat :=
  if v.verdict = .equivalent then 0
  else if v.layers.controlFlow.verdict = .equivalent then 2
  else 1

/-- The scores of plain paths compare like their grades. -/
theorem plain_score : ∀ c t c' t',
    ((plain c t).score != (plain c' t').score) = ((plain c t).grade != (plain c' t').grade) ∧
      ((plain c t).score > (plain c' t').score ↔ (plain c t).grade < (plain c' t').grade) := by
  decide +kernel

/-- Plain paths are equivalent just if they agree in both layers. -/
theorem plain_equivalent_iff : ∀ c t, (plain c t).verdict = .equivalent ↔ c = true ∧ t = true := by
  decide +kernel

variable {v v' : PairVerdict}

/-- The best grade is for equivalent pairs. -/
theorem grade_eq_zero_iff : v.grade = 0 ↔ v.verdict = .equivalent := by
  unfold grade
  split
  · simp_all
  · split <;> simp_all

/-- Verdicts that are the same have the same score. -/
theorem Same.score (h : v.Same v') : v.score = v'.score := by
  rw [PairVerdict.score, PairVerdict.score, h.verdict, h.confidence]

/-- Verdicts that are the same have the same grade. -/
theorem Same.grade (h : v.Same v') : v.grade = v'.grade := by
  have hlayer : v.layers.controlFlow.verdict = v'.layers.controlFlow.verdict :=
    (h.layers .controlFlow).verdict
  rw [PairVerdict.grade, PairVerdict.grade, h.verdict, hlayer]

end PairVerdict

/-- Paths without accesses agree in memory. -/
theorem Memory.same_compare_nil {a b : Profile} (policy : AddressPolicy) (t : Thresholds)
    (ha : a.accesses = []) (hb : b.accesses = []) :
    (compare policy t a b).Same (.decided true) := by
  constructor
  · simp [compare, details, judge, ha, hb, LayerResult.decided]
  · simp [compare, details, similarity, ha, hb, LayerResult.decided]

namespace Session

variable {M : VerdictMap} {s : Settings} {a b : Profile}

/-- On plain paths the layers say no more than whether they agree in control flow and in
transformations. -/
theorem same_structural_plain (hweights : s.weights = .default) (ha : a.Plain) (hb : b.Plain) :
    (structural s a b).Same (.plain (decide (a.domains = b.domains))
      (decide (a.transformations.Perm b.transformations))) := by
  unfold structural PairVerdict.plain
  rw [hweights]
  refine PairVerdict.same_combine _ fun l => ?_
  cases l with
  | controlFlow =>
      exact (ControlFlow.decides_compare ha.length_domains hb.length_domains).same
        (LayerResult.decides_decided _) Iff.rfl
  | memory => exact Memory.same_compare_nil _ _ ha.noAccesses hb.noAccesses
  | transform => exact (Transform.decides_compare a b).same (LayerResult.decides_decided _) Iff.rfl

/-- Without an oracle and a cache, plain paths are compared by their layers alone. -/
theorem compare_plain (horacle : s.oracle = none) (hcache : s.cacheSize = none) (ha : a.Plain)
    (turn : Turn) (st : Session M) : (compare s turn a b st).1 = structural s a b := by
  unfold compare compareAnew
  rw [hcache]
  show (judge s turn a b).verdict = _
  rw [verdict_judge_of_no_oracle horacle, ha.noOutput]
  simp [Observed.differs, Observed.isNone]

/-! ### Chosen pairs -/

variable {as bs : List Profile} {scored : List ScoredPair}

/-- A live comparison calls two programs equivalent if they have equally many paths, and all chosen
pairs are equivalent. -/
theorem Scoring.equivalent_iff_chosen (sorter : Sorter)
    (h : Scoring M s .live as bs scored) :
    (Summary.ofRows (Matching.ofScored sorter as bs scored).rows false).verdict = .equivalent ↔
      as.length = bs.length ∧ 1 ≤ as.length ∧
        ∀ x ∈ Matching.chosen sorter as bs scored, x.verdict.verdict = .equivalent := by
  have hrow {x : ScoredPair} (hx : x ∈ Matching.chosen sorter as bs scored) :
      ∃ a b, PairResult.matched a b x.verdict ∈ (Matching.ofScored sorter as bs scored).rows := by
    obtain ⟨ha, hb⟩ := h.inRange x (Matching.mem_of_mem_chosen hx)
    refine ⟨as[x.a], bs[x.b], List.mem_append_left _ (List.mem_append_left _ ?_)⟩
    exact List.mem_filterMap.mpr ⟨x, hx, Matching.row?_eq_some ha hb⟩
  rw [Summary.ofRows_equivalent_iff]
  constructor
  · rintro ⟨hne, hall⟩
    obtain ⟨hA, hB⟩ := Matching.length_chosen_of_matched h.inRange fun row hrow => (hall row hrow).1
    refine ⟨hA.symm.trans hB, ?_, fun x hx => ?_⟩
    · obtain ⟨row, hmem⟩ := List.exists_mem_of_ne_nil _ hne
      obtain ⟨x, hx, -⟩ := Matching.scored_of_mem_rows hmem (hall row hmem).1
      exact Nat.lt_of_le_of_lt (Nat.zero_le _) (h.inRange x hx).1
    · obtain ⟨a, b, hmem⟩ := hrow hx
      exact (hall _ hmem).2
  · rintro ⟨hlength, hpos, hall⟩
    have hA : (Matching.chosen sorter as bs scored).length = as.length := by
      rw [h.length_chosen, ← hlength, Nat.min_self]
    obtain ⟨hnoneA, hnoneB⟩ := Matching.length_leftOver_chosen h.inRange sorter
    rw [hA, Nat.add_eq_right, List.length_eq_zero_iff] at hnoneA
    rw [hA, ← hlength, Nat.add_eq_right, List.length_eq_zero_iff] at hnoneB
    have hrows : (Matching.ofScored sorter as bs scored).rows =
        (Matching.chosen sorter as bs scored).filterMap (Matching.row? as bs) := by
      simp only [Matching.ofScored, hnoneA, hnoneB, List.map_nil, List.append_nil]
    refine ⟨?_, fun row hmem => ?_⟩
    · obtain ⟨x, hx⟩ := List.exists_mem_of_length_pos (hA ▸ hpos)
      obtain ⟨a, b, hmem⟩ := hrow hx
      exact List.ne_nil_of_mem hmem
    · rw [hrows] at hmem
      obtain ⟨x, hx, a, b, -, -, rfl⟩ := Matching.matched_of_mem_row? hmem
      exact ⟨rfl, hall x hx⟩

/-- What the settings have to be for scores to tell only whether paths agree. -/
structure Unaided (s : Settings) : Prop where
  weights : s.weights = .default
  oracle : s.oracle = none
  cacheSize : s.cacheSize = none

/-- The kind of the path at a place. -/
def kindAt (paths : List Profile) (i : Nat) : Option (List Domain × Multiset Transformation) :=
  paths[i]?.map Profile.kind

section Plain

variable (hs : Unaided s) (ha : ∀ p ∈ as, p.Plain) (hb : ∀ p ∈ bs, p.Plain)
  (h : Scoring M s .live as bs scored)

include hs ha hb h

/-- A scored pair has the verdict on plain paths, and it says whether they are of one kind. -/
theorem Scoring.same_plain {x : ScoredPair} (hx : x ∈ scored) :
    (∃ c t, x.verdict.Same (.plain c t)) ∧
      (x.verdict.verdict = .equivalent ↔ kindAt as x.a = kindAt bs x.b) := by
  obtain ⟨p, q, ending, st, hp, hq, hverdict⟩ := h.compared x hx
  have hpPlain : p.Plain := ha p (List.mem_of_getElem? hp)
  have hqPlain : q.Plain := hb q (List.mem_of_getElem? hq)
  have hsame := same_structural_plain hs.weights hpPlain hqPlain
  rw [← compare_plain hs.oracle hs.cacheSize hpPlain ⟨.live, ending⟩ st, ← hverdict] at hsame
  refine ⟨⟨_, _, hsame⟩, ?_⟩
  rw [kindAt, kindAt, hp, hq, Option.map_some, Option.map_some, Option.some.injEq,
    Profile.kind_eq_iff, hsame.verdict, PairVerdict.plain_equivalent_iff, decide_eq_true_iff,
    decide_eq_true_iff]

/-- The scores of plain paths are graded. -/
theorem Scoring.graded : Matching.Graded scored (·.verdict.grade) := by
  constructor
  · intro x hx y hy
    obtain ⟨⟨c, t, hx⟩, -⟩ := h.same_plain hs ha hb hx
    obtain ⟨⟨c', t', hy⟩, -⟩ := h.same_plain hs ha hb hy
    rw [hx.score, hy.score, hx.grade, hy.grade]
    exact (PairVerdict.plain_score c t c' t').1
  · intro x hx y hy
    obtain ⟨⟨c, t, hx⟩, -⟩ := h.same_plain hs ha hb hx
    obtain ⟨⟨c', t', hy⟩, -⟩ := h.same_plain hs ha hb hy
    rw [hx.score, hy.score, hx.grade, hy.grade]
    exact (PairVerdict.plain_score c t c' t').2

/-- If the paths of two programs can be matched kind by kind, only equivalent pairs are chosen. -/
theorem Scoring.chosen_equivalent (sorter : Sorter) (σ : Fin as.length ≃ Fin bs.length)
    (hσ : ∀ i : Fin as.length, kindAt as i = kindAt bs (σ i)) :
    ∀ x ∈ Matching.chosen sorter as bs scored, x.verdict.verdict = .equivalent := by
  have hkind {x : ScoredPair} (hx : x ∈ scored) := (h.same_plain hs ha hb hx).2
  have hstable (i) (hi : i < as.length) (j) (hj : j < bs.length) (hij : kindAt as i = kindAt bs j) :
      ∃ y ∈ Matching.chosen sorter as bs scored,
        (y.a = i ∨ y.b = j) ∧ kindAt as y.a = kindAt bs y.b := by
    obtain ⟨x, hx, rfl, rfl⟩ := h.exists_scored hi hj
    obtain ⟨y, hy, hyx, hle⟩ :=
      Matching.exists_mem_chosen_le h.inRange (h.graded hs ha hb) hx
    -- the best grade leaves no better one
    have hbest : x.verdict.grade = 0 := PairVerdict.grade_eq_zero_iff.mpr ((hkind hx).mpr hij)
    have hgrade : y.verdict.grade = 0 := Nat.le_zero.mp (hbest ▸ hle)
    exact ⟨y, hy, hyx, (hkind (Matching.mem_of_mem_chosen hy)).mp
      (PairVerdict.grade_eq_zero_iff.mp hgrade)⟩
  have hrange (x) (hx : x ∈ Matching.chosen sorter as bs scored) :=
    h.inRange x (Matching.mem_of_mem_chosen hx)
  intro x hx
  rw [hkind (Matching.mem_of_mem_chosen hx)]
  exact Matching.sameKind_of_mem σ hσ Matching.isMatching_chosen hrange hstable x hx

end Plain

/-! ### Programs -/

/-- Plain paths are equivalent in control flow and transformations if they are of one kind. -/
theorem kind_eq_iff_compare (ha : a.Plain) (hb : b.Plain) :
    a.kind = b.kind ↔ (ControlFlow.compare a b).verdict = .equivalent ∧
      (Transform.compare a b).verdict = .equivalent := by
  rw [Profile.kind_eq_iff, (Transform.decides_compare a b).equivalent_iff,
    (ControlFlow.decides_compare ha.length_domains hb.length_domains).equivalent_iff]

/-- **Greedy matching is complete on programs without memory.** Let no path of two programs access
memory or have a recorded output, let the weights be the default ones, and let there be no oracle
and no cache. If the context is live to the end, every report on the two programs, whatever the
workers do, calls them equivalent exactly if they have equally many paths, at least one, and some
bijection pairs paths that are equivalent in control flow and in transformations. -/
theorem equivalent_iff_exists_bijection (M : VerdictMap) (hs : Unaided s) (started : Instant)
    (elapsed : Duration) {a b : PathSet} (ha : ∀ p ∈ a.paths, p.Plain)
    (hb : ∀ p ∈ b.paths, p.Plain) :
    (∀ endings, ∀ st : Session M, Reports M s .live started elapsed a b
      (compareSets s ⟨.live, endings⟩ started elapsed a b st).1) ∧
    ∀ r, Reports M s .live started elapsed a b r →
      (r.summary.verdict = .equivalent ↔
        a.paths.length = b.paths.length ∧ 1 ≤ a.paths.length ∧
          ∃ σ : Fin a.paths.length ≃ Fin b.paths.length, ∀ i,
            (ControlFlow.compare (a.paths.get i) (b.paths.get (σ i))).verdict = .equivalent ∧
              (Transform.compare (a.paths.get i) (b.paths.get (σ i))).verdict = .equivalent) := by
  refine ⟨reports_compareSets s .live started elapsed a b, ?_⟩
  rintro r ⟨scored, h, rfl⟩
  have hkind (σ : Fin a.paths.length ≃ Fin b.paths.length) (i : Fin a.paths.length) :
      kindAt a.paths i = kindAt b.paths (σ i) ↔
        (ControlFlow.compare (a.paths.get i) (b.paths.get (σ i))).verdict = .equivalent ∧
          (Transform.compare (a.paths.get i) (b.paths.get (σ i))).verdict = .equivalent := by
    rw [← kind_eq_iff_compare (ha _ (List.get_mem ..)) (hb _ (List.get_mem ..))]
    simp [kindAt]
  rw [Report.ofMatching, h.incomplete]
  show (Summary.ofRows _ false).verdict = .equivalent ↔ _
  rw [h.equivalent_iff_chosen s.sorter]
  refine and_congr_right fun hlength => and_congr_right fun _ => ?_
  constructor
  · intro hall
    have hA : (Matching.chosen s.sorter a.paths b.paths scored).length = a.paths.length := by
      rw [h.length_chosen, ← hlength, Nat.min_self]
    obtain ⟨σ, g, hg⟩ := Matching.exists_partners h.inRange hA (hA.trans hlength)
    refine ⟨σ, fun i => (hkind σ i).mp ?_⟩
    obtain ⟨hmem, hga, hgb⟩ := hg i
    have hsame := (h.same_plain hs ha hb (Matching.mem_of_mem_chosen hmem)).2.mp (hall _ hmem)
    rwa [hga, hgb] at hsame
  · rintro ⟨σ, hσ⟩
    exact h.chosen_equivalent hs ha hb s.sorter σ fun i => (hkind σ i).mpr (hσ i)

/-- Two programs with the same two paths, in opposite orders. -/
theorem equivalent_iff_exists_bijection_crosswise :
    let s : Settings := ⟨.relative, .default, .default, false, ⟨0⟩, none, none, .stable⟩
    ∃ p q : Path, Path.parse "(declare-const x (_ BitVec 1)) (assert (= x #b1))" "" = .ok p ∧
      Path.parse "(declare-const x (_ BitVec 1)) (assert (= x #b0))" "" = .ok q ∧
      p.domains ≠ q.domains ∧ (Profile.ofPath p).Plain ∧ (Profile.ofPath q).Plain ∧
      let a := PathSet.ofPaths "f" [.ofPath p, .ofPath q]
      let b := PathSet.ofPaths "g" [.ofPath q, .ofPath p]
      ∀ endings started elapsed, ∀ st : Session (Cache.leastRecent _ _),
        (compareSets s ⟨.live, endings⟩ started elapsed a b st).1.summary.verdict
          = .equivalent := by
  intro s
  have hcross (p q : Profile) (hp : p.Plain) (hq : q.Plain) (endings started elapsed)
      (st : Session (Cache.leastRecent _ _)) :
      (compareSets s ⟨.live, endings⟩ started elapsed (.ofPaths "f" [p, q]) (.ofPaths "g" [q, p])
        st).1.summary.verdict = .equivalent := by
    have ha : ∀ r ∈ (PathSet.ofPaths "f" [p, q]).paths, r.Plain :=
      List.forall_mem_cons.mpr ⟨hp, List.forall_mem_singleton.mpr hq⟩
    have hb : ∀ r ∈ (PathSet.ofPaths "g" [q, p]).paths, r.Plain :=
      List.forall_mem_cons.mpr ⟨hq, List.forall_mem_singleton.mpr hp⟩
    obtain ⟨hreports, hiff⟩ :=
      equivalent_iff_exists_bijection (s := s) _ ⟨rfl, rfl, rfl⟩ started elapsed ha hb
    let σ : Fin 2 ≃ Fin 2 := Equiv.swap 0 1
    refine (hiff _ (hreports endings st)).mpr ⟨rfl, Nat.le_of_ble_eq_true rfl, σ, ?_⟩
    exact Fin.forall_fin_two.mpr
      ⟨(kind_eq_iff_compare hp hp).mp rfl, (kind_eq_iff_compare hq hq).mp rfl⟩
  let x : Variable := ⟨"x", 1, .input⟩
  let fixed (value : Nat) : Path := ⟨-1, "", "", [x], [],
    [⟨0, .apply (.op .eq []) [.input x, .literal value 1] 0⟩], .none⟩
  have hplain (value : Nat) (h : (fixed value).accesses = []) :
      (Profile.ofPath (fixed value)).Plain := ⟨rfl, h, rfl⟩
  have hp := hplain 1 (by decide +kernel)
  have hq := hplain 0 (by decide +kernel)
  exact ⟨fixed 1, fixed 0, Path.parse_eq_ok (by decide +kernel),
    Path.parse_eq_ok (by decide +kernel), by decide +kernel, hp, hq, hcross _ _ hp hq⟩

end Session

end Pathwise
