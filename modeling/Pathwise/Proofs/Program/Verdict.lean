import Mathlib.Data.Fintype.EquivFin
import Mathlib.Data.List.OfFn
import Pathwise.Program
import Pathwise.Proofs.Matching.Greedy

/-!
# The verdict on two programs

What a report says about two programs, in terms of their paths: how many pairs there are, and when
the programs are equivalent and when they are not.

* **Summaries** (`Summary.ofRows_equivalent_iff`, `Summary.ofRows_notEquivalent_iff`): the verdict
  of a summary, in terms of its rows.
* **Scoring** (`Session.Scoring`): the pairs that a comparison has scored by its end. Workers share
  them out, so a pair meets the session in whatever state the others have left it.
* **Reports** (`Session.compareSets_verdict`): the counts and the verdict of every report.
  Equivalent programs are those whose paths are in a bijection of equivalent pairs.
-/

namespace Pathwise

namespace Summary

variable {rows : List PairResult}

/-- Every row is equivalent, open or different. -/
theorem countRows_verdicts (rows : List PairResult) :
    countRows (·.result.verdict == .equivalent) rows + countRows (·.result.verdict == .unknown) rows
      + countRows (·.result.verdict == .notEquivalent) rows = rows.length := by
  induction rows with
  | nil => rfl
  | cons row rows ih =>
      simp only [countRows, List.filter_cons] at ih ⊢
      cases row.result.verdict <;> simp <;> omega

/-- Programs are different just if some pair is. -/
theorem verdictOf_eq_notEquivalent_iff {pairs equivalent different left : Nat} :
    verdictOf false pairs equivalent different left = .notEquivalent ↔ 0 < different := by
  unfold verdictOf
  split
  · contradiction
  · split
    · simp_all
    · split <;> simp_all

/-- Programs are equivalent just if there are pairs, all are equivalent, and nothing is left
over. -/
theorem verdictOf_eq_equivalent_iff {pairs equivalent different left : Nat} :
    verdictOf false pairs equivalent different left = .equivalent ↔
      different = 0 ∧ 0 < pairs ∧ equivalent = pairs ∧ left = 0 := by
  unfold verdictOf
  split
  · contradiction
  · split
    · simp_all
      omega
    · split <;> simp_all

/-- Some rows are counted just if there is one to count. -/
theorem countRows_pos_iff {p : PairResult → Bool} :
    0 < countRows p rows ↔ ∃ row ∈ rows, p row = true := by
  simp [countRows, List.length_pos_iff_exists_mem]

/-- No rows are counted just if there is none to count. -/
theorem countRows_eq_zero_iff {p : PairResult → Bool} :
    countRows p rows = 0 ↔ ∀ row ∈ rows, p row = false := by
  simp [countRows]

/-- Two programs are not equivalent if two partners are not. -/
theorem ofRows_notEquivalent_iff :
    (ofRows rows false).verdict = .notEquivalent ↔
      ∃ row ∈ rows, row.unmatched = false ∧ row.result.verdict = .notEquivalent := by
  simp only [ofRows, verdictOf_eq_notEquivalent_iff, countRows_pos_iff, List.mem_filter,
    Bool.not_eq_true', beq_iff_eq, and_assoc]

/-- Two programs are equivalent if all paths have an equivalent partner, and there are any. -/
theorem ofRows_equivalent_iff :
    (ofRows rows false).verdict = .equivalent ↔
      rows ≠ [] ∧ ∀ row ∈ rows, row.unmatched = false ∧ row.result.verdict = .equivalent := by
  have hleft : (∀ row ∈ rows, (row.unmatched && row.a.isSome) = false) ∧
      (∀ row ∈ rows, (row.unmatched && row.a.isNone) = false) ↔
      ∀ row ∈ rows, row.unmatched = false := by
    rw [← forall₂_and]
    refine forall₂_congr fun row _ => ?_
    cases row.unmatched <;> cases row.a <;> simp
  simp only [ofRows, verdictOf_eq_equivalent_iff, Nat.add_eq_zero_iff, countRows_eq_zero_iff, hleft]
  constructor
  · rintro ⟨-, hpos, hequivalent, hmatched⟩
    have hpairs : rows.filter (!·.unmatched) = rows :=
      List.filter_eq_self.mpr fun row hrow => by simp [hmatched row hrow]
    rw [hpairs] at hpos hequivalent
    refine ⟨List.ne_nil_of_length_pos hpos, fun row hrow => ⟨hmatched row hrow, ?_⟩⟩
    simpa using List.length_filter_eq_length_iff.mp hequivalent row hrow
  · rintro ⟨hne, hall⟩
    have hpairs : rows.filter (!·.unmatched) = rows :=
      List.filter_eq_self.mpr fun row hrow => by simp [(hall row hrow).1]
    rw [hpairs]
    refine ⟨fun row hrow => by simp [(hall row hrow).2], List.length_pos_of_ne_nil hne, ?_,
      fun row hrow => (hall row hrow).1⟩
    exact List.length_filter_eq_length_iff.mpr fun row hrow => by simp [(hall row hrow).2]

/-- Rows are counted in parts. -/
theorem countRows_append (p : PairResult → Bool) (rows rows' : List PairResult) :
    countRows p (rows ++ rows') = countRows p rows + countRows p rows' := by
  simp [countRows]

/-- The counts of rows that are pairs first, and then the paths that are left over. -/
theorem ofRows_counts {matched : List PairResult}
    (hmatched : ∀ row ∈ matched, row.unmatched = false)
    (leftA leftB : List Profile) (incomplete : Bool) :
    let summary :=
      ofRows (matched ++ leftA.map PairResult.leftA ++ leftB.map PairResult.leftB) incomplete
    summary.pairs = matched.length ∧ summary.unmatchedA = leftA.length ∧
      summary.unmatchedB = leftB.length ∧
      summary.equivalentPairs + summary.partialPairs + summary.notEquivalentPairs
        = summary.pairs := by
  have hpairs : (matched ++ leftA.map PairResult.leftA ++ leftB.map PairResult.leftB).filter
      (!·.unmatched) = matched := by
    have hself : matched.filter (!·.unmatched) = matched :=
      List.filter_eq_self.mpr fun row hrow => by simp [hmatched row hrow]
    simp [List.filter_append, hself, PairResult.leftA, PairResult.leftB, List.filter_eq_nil_iff]
  have hnone (p : PairResult → Bool) : countRows (fun row => row.unmatched && p row) matched = 0 :=
    countRows_eq_zero_iff.mpr fun row hrow => by simp [hmatched row hrow]
  refine ⟨?_, ?_, ?_, ?_⟩
  · simp only [ofRows, hpairs]
  · simp only [ofRows, countRows_append, hnone]
    simp [countRows, PairResult.leftA, PairResult.leftB, List.filter_map, Function.comp_def]
  · simp only [ofRows, countRows_append, hnone]
    simp [countRows, PairResult.leftA, PairResult.leftB, List.filter_map, Function.comp_def]
  · simp only [ofRows, hpairs]
    exact_mod_cast countRows_verdicts matched

end Summary

/-- A report has the rows it is made of. -/
theorem Report.pairs_ofRows (s : Settings) (started : Instant) (elapsed : Duration) (a b : PathSet)
    (rows : List PairResult) (summary : Summary) :
    (Report.ofRows s started elapsed a b rows summary).pairs = rows := by
  simp only [Report.ofRows, Report.pairs, Report.keepRows]
  split
  · simp_all
  · rfl

/-! ### What rows say -/

/-- A reference describes a path: by its index, its name, its fingerprint and its output. -/
structure PathRef.Describes (r : PathRef) (p : Profile) : Prop where
  index : r.index = p.path.index
  name : r.name = p.path.name
  fingerprint : r.fingerprint = p.fingerprintText
  output : r.output = p.path.output.shown

/-- A verdict that says nothing but why there is none. -/
structure PairVerdict.IsOpen (v : PairVerdict) (note : String) : Prop where
  verdict : v.verdict = .unknown
  confidence : v.confidence = 0
  layers : ∀ l, v.layers.get l = ⟨l, .unknown, 0, ""⟩
  oracle : v.oracle = ""
  inTime : v.timedOut = false
  notes : v.notes = [note]

namespace PairResult

/-- A row that describes two partners and has the verdict on them. -/
structure IsPair (row : PairResult) (p q : Profile) (v : PairVerdict) : Prop where
  a : ∃ r, row.a = some r ∧ r.Describes p
  b : ∃ r, row.b = some r ∧ r.Describes q
  matched : row.unmatched = false
  result : row.result = v

/-- A row that describes a path of the first program that is left over. -/
structure IsLeftA (row : PairResult) (p : Profile) : Prop where
  a : ∃ r, row.a = some r ∧ r.Describes p
  b : row.b = none
  unmatched : row.unmatched = true
  result : row.result.IsOpen "no counterpart in program B"

/-- A row that describes a path of the second program that is left over. -/
structure IsLeftB (row : PairResult) (q : Profile) : Prop where
  a : row.a = none
  b : ∃ r, row.b = some r ∧ r.Describes q
  unmatched : row.unmatched = true
  result : row.result.IsOpen "no counterpart in program A"

/-- The reference to a path describes it. -/
theorem describes_ref (p : Profile) : p.ref.Describes p :=
  ⟨rfl, rfl, rfl, rfl⟩

/-- The verdict on a path that is left over is open. -/
theorem isOpen_leftVerdict (note : String) : (leftVerdict note).IsOpen note :=
  ⟨rfl, rfl, fun l => by cases l <;> rfl, rfl, rfl, rfl⟩

/-- The row of two paths describes them both, and has their verdict. -/
theorem isPair_matched (p q : Profile) (v : PairVerdict) : (matched p q v).IsPair p q v :=
  ⟨⟨_, rfl, describes_ref p⟩, ⟨_, rfl, describes_ref q⟩, rfl, rfl⟩

/-- The row of a path that is left over in the first program describes it. -/
theorem isLeftA_leftA (p : Profile) : (leftA p).IsLeftA p :=
  ⟨⟨_, rfl, describes_ref p⟩, rfl, rfl, isOpen_leftVerdict _⟩

/-- The row of a path that is left over in the second program describes it. -/
theorem isLeftB_leftB (q : Profile) : (leftB q).IsLeftB q :=
  ⟨rfl, ⟨_, rfl, describes_ref q⟩, rfl, isOpen_leftVerdict _⟩

end PairResult

namespace Matching

variable {sorter : Sorter} {as bs : List Profile} {scored : List ScoredPair}

/-- The rows of the chosen pairs. -/
theorem matched_of_mem_row? {pairs : List ScoredPair} {row : PairResult}
    (h : row ∈ pairs.filterMap (row? as bs)) :
    ∃ x ∈ pairs, ∃ a b, as[x.a]? = some a ∧ bs[x.b]? = some b ∧ row = .matched a b x.verdict := by
  obtain ⟨x, hx, hrow⟩ := List.mem_filterMap.mp h
  obtain ⟨a, ha, b, hb, rfl⟩ := row?_eq_some_iff.mp hrow
  exact ⟨x, hx, a, b, ha, hb, rfl⟩

/-- A row is that of a scored pair, or of a path that is left over. -/
theorem cases_of_mem_rows {row : PairResult} (h : row ∈ (ofScored sorter as bs scored).rows) :
    (∃ x ∈ scored, ∃ p q, as[x.a]? = some p ∧ bs[x.b]? = some q ∧ row = .matched p q x.verdict) ∨
      (∃ p ∈ as, row = .leftA p) ∨ ∃ q ∈ bs, row = .leftB q := by
  have hleft {paths : List Profile} {taken : List Nat} {p : Profile}
      (hp : p ∈ leftOver sorter paths taken) : p ∈ paths := by
    obtain ⟨i, -, hi⟩ := List.mem_filterMap.mp hp
    exact List.mem_of_getElem? hi
  rcases List.mem_append.mp h with h | h
  · rcases List.mem_append.mp h with h | h
    · obtain ⟨x, hx, hrow⟩ := matched_of_mem_row? h
      exact .inl ⟨x, mem_of_mem_chosen hx, hrow⟩
    · obtain ⟨p, hp, rfl⟩ := List.mem_map.mp h
      exact .inr (.inl ⟨p, hleft hp, rfl⟩)
  · obtain ⟨q, hq, rfl⟩ := List.mem_map.mp h
    exact .inr (.inr ⟨q, hleft hq, rfl⟩)

/-- A row that is a pair was scored. -/
theorem scored_of_mem_rows {row : PairResult} (h : row ∈ (ofScored sorter as bs scored).rows)
    (hmatched : row.unmatched = false) :
    ∃ x ∈ scored, ∃ p q, as[x.a]? = some p ∧ bs[x.b]? = some q ∧ row = .matched p q x.verdict := by
  rcases cases_of_mem_rows h with hpair | ⟨p, -, rfl⟩ | ⟨q, -, rfl⟩
  · exact hpair
  · cases hmatched
  · cases hmatched

/-- A row that is no pair describes a path that is left over. -/
theorem left_of_mem_rows {row : PairResult} (h : row ∈ (ofScored sorter as bs scored).rows)
    (hunmatched : row.unmatched = true) :
    (∃ p ∈ as, row.IsLeftA p) ∨ ∃ q ∈ bs, row.IsLeftB q := by
  rcases cases_of_mem_rows h with ⟨x, -, p, q, -, -, rfl⟩ | ⟨p, hp, rfl⟩ | ⟨q, hq, rfl⟩
  · cases hunmatched
  · exact .inl ⟨p, hp, PairResult.isLeftA_leftA p⟩
  · exact .inr ⟨q, hq, PairResult.isLeftB_leftB q⟩

/-- Pairs that have one place of the first program each are all the pairs of a matching. -/
theorem IsMatching.perm_ofFn {pairs : List ScoredPair} {n : Nat} (hmatching : IsMatching pairs)
    (hlt : ∀ x ∈ pairs, x.a < n) {g : Fin n → ScoredPair} (hg : ∀ i, g i ∈ pairs)
    (hga : ∀ i, (g i).a = i) : pairs.Perm (List.ofFn g) := by
  refine (List.perm_ext_iff_of_nodup hmatching.nodupA.of_map ?_).mpr fun x => ?_
  · exact List.nodup_ofFn.mpr fun i j hij => Fin.ext (by rw [← hga i, ← hga j, hij])
  · rw [List.mem_ofFn]
    constructor
    · intro hx
      exact ⟨⟨x.a, hlt x hx⟩, List.inj_on_of_nodup_map hmatching.nodupA (hg _) hx (hga _)⟩
    · rintro ⟨i, rfl⟩
      exact hg i

section InRange

variable (hrange : ∀ x ∈ scored, x.a < as.length ∧ x.b < bs.length)

include hrange

/-- The paths of a program are those in chosen pairs and those left over. -/
theorem length_leftOver_chosen (sorter : Sorter) :
    let pairs := chosen sorter as bs scored
    (leftOver sorter as (pairs.map (·.a))).length + pairs.length = as.length ∧
      (leftOver sorter bs (pairs.map (·.b))).length + pairs.length = bs.length := by
  intro pairs
  have hmatching : IsMatching pairs := isMatching_chosen
  have hA := length_leftOver sorter as hmatching.nodupA (chosenA_lt hrange)
  have hB := length_leftOver sorter bs hmatching.nodupB (chosenB_lt hrange)
  rw [List.length_map] at hA hB
  exact ⟨hA, hB⟩

/-- The counts of a matching, in terms of the number of pairs that are chosen. -/
theorem summary_counts (sorter : Sorter) (incomplete : Bool) :
    let k := (chosen sorter as bs scored).length
    let summary := Summary.ofRows (ofScored sorter as bs scored).rows incomplete
    summary.pairs = k ∧ summary.unmatchedA + k = as.length ∧ summary.unmatchedB + k = bs.length ∧
      summary.equivalentPairs + summary.partialPairs + summary.notEquivalentPairs
        = summary.pairs := by
  intro k summary
  have hmatched (row) (hrow : row ∈ (chosen sorter as bs scored).filterMap (row? as bs)) :
      row.unmatched = false := by
    obtain ⟨x, -, a, b, -, -, rfl⟩ := matched_of_mem_row? hrow
    rfl
  obtain ⟨hpairs, hA, hB, hsum⟩ := Summary.ofRows_counts hmatched
    (leftOver sorter as ((chosen sorter as bs scored).map (·.a)))
    (leftOver sorter bs ((chosen sorter as bs scored).map (·.b))) incomplete
  obtain ⟨hleftA, hleftB⟩ := length_leftOver_chosen hrange sorter
  rw [(forall₂_row? fun x hx => hrange x (mem_of_mem_chosen hx)).length_eq] at hpairs
  refine ⟨hpairs, ?_, ?_, hsum⟩
  · rw [show summary.unmatchedA = _ from hA]
    exact_mod_cast hleftA
  · rw [show summary.unmatchedB = _ from hB]
    exact_mod_cast hleftB

/-- If all rows are pairs, every path is chosen. -/
theorem length_chosen_of_matched
    (hmatched : ∀ row ∈ (ofScored sorter as bs scored).rows, row.unmatched = false) :
    (chosen sorter as bs scored).length = as.length ∧
      (chosen sorter as bs scored).length = bs.length := by
  have hnone {row : Profile → PairResult} {left : List Profile}
      (hrows : left.map row ⊆ (ofScored sorter as bs scored).rows)
      (hrow : ∀ p, (row p).unmatched = true) : left = [] := by
    refine List.eq_nil_iff_forall_not_mem.mpr fun p hp => ?_
    have hpair := hmatched _ (hrows (List.mem_map_of_mem hp))
    rw [hrow] at hpair
    cases hpair
  have hnoneA := hnone (List.subset_append_of_subset_left _ (List.subset_append_right _ _))
    fun _ => rfl
  have hnoneB := hnone (List.subset_append_right _ _) fun _ => rfl
  obtain ⟨hA, hB⟩ := length_leftOver_chosen hrange sorter
  rw [hnoneA, List.length_nil, Nat.zero_add] at hA
  rw [hnoneB, List.length_nil, Nat.zero_add] at hB
  exact ⟨hA, hB⟩

/-- If every path is chosen, every path has a partner. -/
theorem exists_partners (hA : (chosen sorter as bs scored).length = as.length)
    (hB : (chosen sorter as bs scored).length = bs.length) :
    ∃ (σ : Fin as.length ≃ Fin bs.length) (g : Fin as.length → ScoredPair),
      ∀ i, g i ∈ chosen sorter as bs scored ∧ (g i).a = i ∧ (g i).b = σ i := by
  have hmatching : IsMatching (chosen sorter as bs scored) := isMatching_chosen
  have hpartner (i : Fin as.length) : ∃ x ∈ chosen sorter as bs scored, x.a = i :=
    List.mem_map.mp (mem_of_length_eq hmatching.nodupA (chosenA_lt hrange) (by simp [hA]) i.isLt)
  choose g hg hga using hpartner
  have hlt (i) : (g i).b < bs.length := (hrange _ (mem_of_mem_chosen (hg i))).2
  have hinjective : Function.Injective fun i => (⟨(g i).b, hlt i⟩ : Fin bs.length) := by
    intro i j hij
    have hsame : g i = g j :=
      List.inj_on_of_nodup_map hmatching.nodupB (hg i) (hg j) (Fin.mk.inj hij)
    exact Fin.ext (by rw [← hga i, ← hga j, hsame])
  have hbijective := (Fintype.bijective_iff_injective_and_card _).mpr
    ⟨hinjective, by simp [← hA, ← hB]⟩
  exact ⟨.ofBijective _ hbijective, g, fun i => ⟨hg i, hga i, rfl⟩⟩

/-- If every path is chosen, the rows are a bijection between the paths. -/
theorem exists_bijection (hA : (chosen sorter as bs scored).length = as.length)
    (hB : (chosen sorter as bs scored).length = bs.length) :
    ∃ (σ : Fin as.length ≃ Fin bs.length) (v : Fin as.length → PairVerdict),
      (ofScored sorter as bs scored).rows.Perm
        (List.ofFn fun i => PairResult.matched (as.get i) (bs.get (σ i)) (v i)) := by
  obtain ⟨σ, g, hg⟩ := exists_partners hrange hA hB
  refine ⟨σ, fun i => (g i).verdict, ?_⟩
  have hlt (x) (hx : x ∈ chosen sorter as bs scored) := hrange x (mem_of_mem_chosen hx)
  have hrow (i) : row? as bs (g i)
      = some (.matched (as.get i) (bs.get (σ i)) (g i).verdict) := by
    obtain ⟨hmem, hga, hgb⟩ := hg i
    rw [row?_eq_some (hlt _ hmem).1 (hlt _ hmem).2]
    simp [hga, hgb]
  obtain ⟨hnoneA, hnoneB⟩ : leftOver sorter as ((chosen sorter as bs scored).map (·.a)) = [] ∧
      leftOver sorter bs ((chosen sorter as bs scored).map (·.b)) = [] := by
    obtain ⟨hleftA, hleftB⟩ := length_leftOver_chosen hrange sorter
    exact ⟨List.eq_nil_of_length_eq_zero (by omega), List.eq_nil_of_length_eq_zero (by omega)⟩
  simp only [ofScored, hnoneA, hnoneB, List.map_nil, List.append_nil]
  refine ((isMatching_chosen.perm_ofFn (fun x hx => (hlt x hx).1) (fun i => (hg i).1)
    fun i => (hg i).2.1).filterMap _).trans ?_
  rw [List.ofFn_eq_map, List.ofFn_eq_map, List.filterMap_map, ← List.filterMap_eq_map]
  exact .of_eq (congrArg (List.filterMap · _) (funext hrow))

end InRange

end Matching

/-- The places of a scored pair. -/
def ScoredPair.place (x : ScoredPair) : Nat × Nat :=
  (x.a, x.b)

namespace Session

/-- The pairs of places are those of both programs. -/
theorem mem_allPlaces {m n : Nat} {p : Nat × Nat} : p ∈ allPlaces m n ↔ p.1 < m ∧ p.2 < n := by
  simp only [allPlaces, List.mem_flatMap, List.mem_map, List.mem_range]
  constructor
  · rintro ⟨i, hi, j, hj, rfl⟩
    exact ⟨hi, hj⟩
  · rintro ⟨hi, hj⟩
    exact ⟨p.1, hi, p.2, hj, rfl⟩

/-- There is a pair for each two places. -/
theorem length_allPlaces (m n : Nat) : (allPlaces m n).length = m * n := by
  simp [allPlaces, List.length_flatMap]

end Session

/-! ### Scoring -/

namespace Matching

/-- Pairs of places in their order, of which some may be missing: what is scored by the end of a
comparison that may have been cut short. -/
def PartlyScored (as bs : List Profile) (pairs : List ScoredPair) : Prop :=
  (pairs.map (·.place)).Sublist (Session.allPlaces as.length bs.length)

instance (as bs : List Profile) (pairs : List ScoredPair) : Decidable (PartlyScored as bs pairs) :=
  inferInstanceAs (Decidable (List.Sublist _ _))

variable {as bs : List Profile} {pairs : List ScoredPair}

/-- Scored pairs are pairs of places. -/
theorem PartlyScored.inRange (h : PartlyScored as bs pairs) :
    ∀ x ∈ pairs, x.a < as.length ∧ x.b < bs.length := fun _ hx =>
  Session.mem_allPlaces.mp (h.subset (List.mem_map_of_mem hx))

/-- If as many pairs are scored as there are, each of them is. -/
theorem PartlyScored.exists_scored (h : PartlyScored as bs pairs)
    (hlength : pairs.length = as.length * bs.length) {i j : Nat} (hi : i < as.length)
    (hj : j < bs.length) : ∃ x ∈ pairs, x.a = i ∧ x.b = j := by
  have hall : pairs.map (·.place) = Session.allPlaces as.length bs.length :=
    h.eq_of_length (by rw [List.length_map, hlength, Session.length_allPlaces])
  have hplace : (i, j) ∈ pairs.map (·.place) := by
    rw [hall]
    exact Session.mem_allPlaces.mpr ⟨hi, hj⟩
  obtain ⟨x, hx, hxp⟩ := List.mem_map.mp hplace
  exact ⟨x, hx, congrArg Prod.fst hxp, congrArg Prod.snd hxp⟩

end Matching

namespace Session

/-- Pairs as a comparison of two programs can have scored them by its end. Each was compared in a
live context, in whatever state the session was by then and with whatever end of the oracle's call,
and all were, unless the context has ended. -/
structure Scoring (M : VerdictMap) (s : Settings) (ctx : Context) (as bs : List Profile)
    (scored : List ScoredPair) : Prop where
  places : (scored.map (·.place)).Sublist (allPlaces as.length bs.length)
  complete : ctx = .live → scored.map (·.place) = allPlaces as.length bs.length
  compared : ∀ x ∈ scored, ∃ a b ending, ∃ st : Session M, as[x.a]? = some a ∧
    bs[x.b]? = some b ∧ x.verdict = (compare s ⟨.live, ending⟩ a b st).1

variable {M : VerdictMap}

/-- Comparing the pairs one after the other scores them all. -/
theorem scorePairs_spec (s : Settings) (endings : Nat × Nat → Oracle.Ending)
    {as bs : List Profile} {places : List (Nat × Nat)}
    (hplaces : ∀ p ∈ places, p.1 < as.length ∧ p.2 < bs.length) (st : Session M) :
    let scored := (scorePairs s ⟨.live, endings⟩ as bs places st).1
    scored.map (·.place) = places ∧ ∀ x ∈ scored, ∃ a b ending, ∃ st : Session M,
      as[x.a]? = some a ∧ bs[x.b]? = some b ∧
        x.verdict = (compare s ⟨.live, ending⟩ a b st).1 := by
  induction places generalizing st with
  | nil => exact ⟨rfl, fun x hx => nomatch hx⟩
  | cons p places ih =>
      obtain ⟨⟨hi, hj⟩, hrest⟩ := List.forall_mem_cons.mp hplaces
      have ha : as[p.1]? = some as[p.1] := List.getElem?_eq_getElem hi
      have hb : bs[p.2]? = some bs[p.2] := List.getElem?_eq_getElem hj
      obtain ⟨hmap, hcompared⟩ :=
        ih hrest (compare s ⟨.live, endings p⟩ as[p.1] bs[p.2] st).2
      simp only [scorePairs, ha, hb]
      refine ⟨?_, List.forall_mem_cons.mpr ⟨⟨_, _, endings p, st, ha, hb, rfl⟩, hcompared⟩⟩
      rw [List.map_cons]
      exact congrArg (p :: ·) hmap

/-- Matching the paths of two programs is matching them by a scoring. -/
theorem scoring_matchPaths (s : Settings) (ctx : Context) (endings : Nat × Nat → Oracle.Ending)
    (as bs : List Profile) (st : Session M) :
    ∃ scored, Scoring M s ctx as bs scored ∧
      (matchPaths s ⟨ctx, endings⟩ as bs st).1 = .ofScored s.sorter as bs scored := by
  cases ctx with
  | live =>
      obtain ⟨hmap, hcompared⟩ := scorePairs_spec s endings
        (fun p (hp : p ∈ allPlaces as.length bs.length) => mem_allPlaces.mp hp) st
      exact ⟨_, ⟨by rw [hmap], fun _ => hmap, hcompared⟩, rfl⟩
  | cancelled =>
      exact ⟨[], ⟨List.nil_sublist _, nofun, fun x hx => nomatch hx⟩, rfl⟩

section Scoring

variable {s : Settings} {ctx : Context} {as bs : List Profile} {scored : List ScoredPair}

/-- Scored pairs are pairs of places that exist. -/
theorem Scoring.inRange (h : Scoring M s ctx as bs scored) :
    ∀ x ∈ scored, x.a < as.length ∧ x.b < bs.length :=
  Matching.PartlyScored.inRange h.places

/-- In a live context there are as many scores as pairs. -/
theorem Scoring.length_eq (h : Scoring M s .live as bs scored) :
    scored.length = as.length * bs.length := by
  rw [← length_allPlaces, ← h.complete rfl, List.length_map]

/-- In a live context a matching is complete. -/
theorem Scoring.incomplete (sorter : Sorter) (h : Scoring M s .live as bs scored) :
    (Matching.ofScored sorter as bs scored).incomplete = false := by
  simp [Matching.incomplete, Matching.ofScored, h.length_eq]

/-- In a live context every pair is scored. -/
theorem Scoring.exists_scored (h : Scoring M s .live as bs scored) {i j : Nat}
    (hi : i < as.length) (hj : j < bs.length) : ∃ x ∈ scored, x.a = i ∧ x.b = j :=
  Matching.PartlyScored.exists_scored h.places h.length_eq hi hj

/-- In a live context the smaller program has none of its paths left over. -/
theorem Scoring.length_chosen (sorter : Sorter) (h : Scoring M s .live as bs scored) :
    (Matching.chosen sorter as bs scored).length = min as.length bs.length :=
  Matching.length_chosen h.inRange fun _ hi _ hj => h.exists_scored hi hj

/-- A live comparison calls two programs equivalent if their paths are in a bijection of equivalent
pairs. -/
theorem Scoring.equivalent_iff (sorter : Sorter) (h : Scoring M s .live as bs scored) :
    let rows := (Matching.ofScored sorter as bs scored).rows
    (Summary.ofRows rows false).verdict = .equivalent ↔
      as.length = bs.length ∧ 1 ≤ as.length ∧
        ∃ (σ : Fin as.length ≃ Fin bs.length) (row : Fin as.length → PairResult),
          rows.Perm (List.ofFn row) ∧ ∀ i, ∃ v, (row i).IsPair (as.get i) (bs.get (σ i)) v ∧
            v.verdict = .equivalent := by
  intro rows
  rw [Summary.ofRows_equivalent_iff]
  constructor
  · rintro ⟨hne, hall⟩
    obtain ⟨hA, hB⟩ := Matching.length_chosen_of_matched h.inRange fun row hrow => (hall row hrow).1
    obtain ⟨σ, v, hperm⟩ := Matching.exists_bijection h.inRange hA hB
    refine ⟨hA.symm.trans hB, ?_, σ, _, hperm, fun i => ⟨v i, PairResult.isPair_matched .., ?_⟩⟩
    · have hlength : rows.length = as.length := by simpa using hperm.length_eq
      exact hlength ▸ List.length_pos_of_ne_nil hne
    · exact (hall _ (hperm.mem_iff.mpr (List.mem_ofFn.mpr ⟨i, rfl⟩))).2
  · rintro ⟨-, hpos, σ, row, hperm, hequivalent⟩
    refine ⟨?_, fun _ hrow => ?_⟩
    · have hlength : rows.length = as.length := by simpa using hperm.length_eq
      exact List.ne_nil_of_length_pos (hlength ▸ hpos)
    · obtain ⟨i, rfl⟩ := List.mem_ofFn.mp (hperm.mem_iff.mp hrow)
      obtain ⟨v, hpair, hv⟩ := hequivalent i
      exact ⟨hpair.matched, hpair.result ▸ hv⟩

end Scoring

/-! ### Reports -/

/-- The reports that a comparison of two programs can come to. -/
def Reports (M : VerdictMap) (s : Settings) (ctx : Context) (started : Instant)
    (elapsed : Duration) (a b : PathSet) (r : Report) : Prop :=
  ∃ scored, Scoring M s ctx a.paths b.paths scored ∧
    r = .ofMatching s ctx started elapsed a b (.ofScored s.sorter a.paths b.paths scored)

/-- Comparing two programs comes to one of their reports. -/
theorem reports_compareSets (s : Settings) (ctx : Context) (started : Instant) (elapsed : Duration)
    (a b : PathSet) (endings : Nat × Nat → Oracle.Ending) (st : Session M) :
    Reports M s ctx started elapsed a b
      (compareSets s ⟨ctx, endings⟩ started elapsed a b st).1 := by
  obtain ⟨scored, hscoring, hmatch⟩ := scoring_matchPaths s ctx endings a.paths b.paths st
  refine ⟨scored, hscoring, ?_⟩
  rw [← hmatch]
  rfl

/-- A row that is a pair has the verdict of a comparison of its two paths. -/
theorem Scoring.isPair_of_mem_rows {s : Settings} {ctx : Context} {as bs : List Profile}
    {scored : List ScoredPair} (sorter : Sorter) (h : Scoring M s ctx as bs scored)
    {row : PairResult} (hrow : row ∈ (Matching.ofScored sorter as bs scored).rows)
    (hmatched : row.unmatched = false) :
    ∃ p ∈ as, ∃ q ∈ bs, ∃ ending, ∃ st : Session M,
      row.IsPair p q (compare s ⟨.live, ending⟩ p q st).1 := by
  obtain ⟨x, hx, p, q, hp, hq, rfl⟩ := Matching.scored_of_mem_rows hrow hmatched
  obtain ⟨p', q', ending, st, hp', hq', hverdict⟩ := h.compared x hx
  obtain rfl : p' = p := Option.some.inj (hp'.symm.trans hp)
  obtain rfl : q' = q := Option.some.inj (hq'.symm.trans hq)
  refine ⟨_, List.mem_of_getElem? hp, _, List.mem_of_getElem? hq, ending, st, ?_⟩
  rw [← hverdict]
  exact PairResult.isPair_matched _ _ _

/-- Comparing two programs, with any workers, any map for its verdicts and in any state of the
session, comes to a report in which every matched row describes a path of each program and has the
verdict of a comparison of the two, every other row describes one path that is left over, with an
open verdict, and:

* if the context is live to the end, the pairs are as many as the smaller program has paths, all
  other paths are left over, and the pairs are counted by their verdicts. The programs are
  equivalent exactly if they have equally many paths, at least one, and the rows are a bijection
  between them with every pair equivalent. They are not equivalent exactly if some pair is not;
* if the context has ended, whatever was scored, the programs are called partially equivalent and
  the report incomplete. -/
theorem compareSets_verdict (M : VerdictMap) (s : Settings) (ctx : Context) (started : Instant)
    (elapsed : Duration) (a b : PathSet) :
    (∀ endings, ∀ st : Session M, Reports M s ctx started elapsed a b
      (compareSets s ⟨ctx, endings⟩ started elapsed a b st).1) ∧
    ∀ r, Reports M s ctx started elapsed a b r →
      (∀ row ∈ r.pairs, row.unmatched = false → ∃ p ∈ a.paths, ∃ q ∈ b.paths, ∃ ending,
        ∃ st : Session M, row.IsPair p q (compare s ⟨.live, ending⟩ p q st).1) ∧
      (∀ row ∈ r.pairs, row.unmatched = true →
        (∃ p ∈ a.paths, row.IsLeftA p) ∨ ∃ q ∈ b.paths, row.IsLeftB q) ∧
      (ctx = .live →
        r.summary.pairs = min a.paths.length b.paths.length ∧
        r.summary.unmatchedA = a.paths.length - r.summary.pairs ∧
        r.summary.unmatchedB = b.paths.length - r.summary.pairs ∧
        r.summary.equivalentPairs + r.summary.partialPairs + r.summary.notEquivalentPairs
          = r.summary.pairs ∧
        (r.summary.verdict = .equivalent ↔
          a.paths.length = b.paths.length ∧ 1 ≤ a.paths.length ∧
            ∃ (σ : Fin a.paths.length ≃ Fin b.paths.length)
                (row : Fin a.paths.length → PairResult),
              r.pairs.Perm (List.ofFn row) ∧
                ∀ i, ∃ v, (row i).IsPair (a.paths.get i) (b.paths.get (σ i)) v ∧
                  v.verdict = .equivalent) ∧
        (r.summary.verdict = .notEquivalent ↔
          ∃ row ∈ r.pairs, row.unmatched = false ∧ row.result.verdict = .notEquivalent)) ∧
      (ctx = .cancelled →
        r.summary.verdict = .partiallyEquivalent ∧ r.summary.incomplete = true) := by
  refine ⟨reports_compareSets s ctx started elapsed a b, ?_⟩
  rintro r ⟨scored, hscoring, rfl⟩
  rw [Report.ofMatching, Report.pairs_ofRows]
  refine ⟨fun row => hscoring.isPair_of_mem_rows s.sorter, fun row => Matching.left_of_mem_rows,
    ?_, ?_⟩
  · rintro rfl
    rw [hscoring.incomplete, show (false || Context.live == Context.cancelled) = false from rfl]
    obtain ⟨hpairs, hA, hB, hsum⟩ := Matching.summary_counts hscoring.inRange s.sorter false
    rw [hscoring.length_chosen] at hpairs hA hB
    simp only [Report.ofRows]
    refine ⟨hpairs, by omega, by omega, hsum, hscoring.equivalent_iff s.sorter, ?_⟩
    exact Summary.ofRows_notEquivalent_iff
  · rintro rfl
    rw [show (Context.cancelled == Context.cancelled) = true from rfl, Bool.or_true]
    exact ⟨rfl, rfl⟩

end Session

end Pathwise
