import Pathwise.Proofs.Program.Verdict

/-!
# Every path is reported once

The rows of a matching are all paths of both programs, each once, whatever was scored and however
pairs are sorted.

* **Layouts** (`Matching.Layout`): where rows come from, place by place. Rows themselves do not
  tell, since two paths of a program can look the same in a report.
* **Rows** (`Matching.Layout.Describes`): what stands in the rows of a layout.
* **Coverage** (`Matching.Layout.Covers`): each place is in one row, the matched pairs were scored
  and cannot be extended by another scored pair, and rows of one kind are sorted by index.
* **Missing scores** (`Matching.PartlyScored.length_lt_iff`): fewer scores than pairs means that
  some pair has none.
-/

namespace Pathwise

/-- No pair of places is listed twice. -/
theorem Session.nodup_allPlaces (m n : Nat) : (allPlaces m n).Nodup := by
  refine List.nodup_flatMap.mpr ⟨fun i _ => ?_, ?_⟩
  · exact List.nodup_range.map fun _ _ h => congrArg Prod.snd h
  · refine List.nodup_range.imp fun {i j} hij p hi hj => hij ?_
    obtain ⟨_, -, rfl⟩ := List.mem_map.mp hi
    obtain ⟨_, -, h⟩ := List.mem_map.mp hj
    exact (congrArg Prod.fst h).symm

namespace Matching

variable {sorter : Sorter} {as bs : List Profile} {pairs : List ScoredPair}

/-! ### Layouts -/

/-- Where the rows of a matching come from, in their order: pairs that are matched, and the places
of paths that are left over in the first and in the second program. -/
structure Layout where
  matched : List ScoredPair
  leftA : List Nat
  leftB : List Nat

namespace Layout

/-- Rows as a layout has them. Each matched row describes the paths at its two places and has the
verdict on them, and each other row describes the path at its place, with an open verdict. -/
structure Describes (as bs : List Profile) (l : Layout) (matched leftA leftB : List PairResult) :
    Prop where
  matched : List.Forall₂ (fun row x => ∃ p q, as[x.a]? = some p ∧ bs[x.b]? = some q ∧
    row.IsPair p q x.verdict) matched l.matched
  leftA : List.Forall₂ (fun row i => ∃ p, as[i]? = some p ∧ row.IsLeftA p) leftA l.leftA
  leftB : List.Forall₂ (fun row j => ∃ q, bs[j]? = some q ∧ row.IsLeftB q) leftB l.leftB

/-- A layout in which each place of two programs is in one row. The pairs in it were scored, and no
other scored pair could be added. -/
structure Covers (as bs : List Profile) (pairs : List ScoredPair) (l : Layout) : Prop where
  onceA : (l.matched.map (·.a) ++ l.leftA).Perm (List.range as.length)
  onceB : (l.matched.map (·.b) ++ l.leftB).Perm (List.range bs.length)
  scored : ∀ x ∈ l.matched, x ∈ pairs
  maximal : ∀ x ∈ pairs, ¬ (x.a ∈ l.leftA ∧ x.b ∈ l.leftB)
  sorted : l.matched.Pairwise fun x y => indexAt as x.a ≤ indexAt as y.a
  sortedA : l.leftA.Pairwise fun i j => indexAt as i ≤ indexAt as j
  sortedB : l.leftB.Pairwise fun i j => indexAt bs i ≤ indexAt bs j

end Layout

/-- The layout of a matching by scored pairs. -/
def layout (sorter : Sorter) (as bs : List Profile) (pairs : List ScoredPair) : Layout where
  matched := chosen sorter as bs pairs
  leftA := leftPlaces sorter as ((chosen sorter as bs pairs).map (·.a))
  leftB := leftPlaces sorter bs ((chosen sorter as bs pairs).map (·.b))

/-- The rows of a matching are those of its layout. -/
theorem describes_layout (sorter : Sorter)
    (hrange : ∀ x ∈ pairs, x.a < as.length ∧ x.b < bs.length) :
    ∃ matched leftA leftB, (ofScored sorter as bs pairs).rows = matched ++ leftA ++ leftB ∧
      (layout sorter as bs pairs).Describes as bs matched leftA leftB := by
  have hchosen (x) (hx : x ∈ chosen sorter as bs pairs) := hrange x (mem_of_mem_chosen hx)
  refine ⟨_, _, _, rfl, ?_, ?_, ?_⟩
  · refine (forall₂_row? hchosen).imp fun row x hrow => ?_
    obtain ⟨p, hp, q, hq, rfl⟩ := row?_eq_some_iff.mp hrow
    exact ⟨p, q, hp, hq, PairResult.isPair_matched p q x.verdict⟩
  · refine List.forall₂_map_left_iff.mpr ((forall₂_leftOver sorter as _).imp fun p i hp => ?_)
    exact ⟨p, hp, PairResult.isLeftA_leftA p⟩
  · refine List.forall₂_map_left_iff.mpr ((forall₂_leftOver sorter bs _).imp fun q j hq => ?_)
    exact ⟨q, hq, PairResult.isLeftB_leftB q⟩

/-- The layout of a matching has each place once. -/
theorem covers_layout (hrange : ∀ x ∈ pairs, x.a < as.length ∧ x.b < bs.length) :
    (layout sorter as bs pairs).Covers as bs pairs where
  onceA := append_leftPlaces_perm sorter as isMatching_chosen.nodupA (chosenA_lt hrange)
  onceB := append_leftPlaces_perm sorter bs isMatching_chosen.nodupB (chosenB_lt hrange)
  scored _ hx := mem_of_mem_chosen hx
  maximal x hx := by
    rintro ⟨ha, hb⟩
    obtain ⟨y, hy, hya | hyb⟩ := exists_mem_chosen hrange hx
    · exact (mem_leftPlaces.mp ha).2 (List.mem_map.mpr ⟨y, hy, hya⟩)
    · exact (mem_leftPlaces.mp hb).2 (List.mem_map.mpr ⟨y, hy, hyb⟩)
  sorted := pairwise_chosen sorter as bs pairs
  sortedA := pairwise_leftPlaces sorter as _
  sortedB := pairwise_leftPlaces sorter bs _

/-- Nothing is known about a path that is left over. -/
theorem unknown_of_unmatched {row : PairResult} (hrow : row ∈ (ofScored sorter as bs pairs).rows)
    (hunmatched : row.unmatched = true) :
    row.result.verdict = .unknown ∧ row.result.confidence = 0 := by
  rcases left_of_mem_rows hrow hunmatched with ⟨p, -, hp⟩ | ⟨q, -, hq⟩
  · exact ⟨hp.result.verdict, hp.result.confidence⟩
  · exact ⟨hq.result.verdict, hq.result.confidence⟩

/-! ### Missing scores -/

/-- There are fewer scores than pairs if some pair of places has none. -/
theorem PartlyScored.length_lt_iff (h : PartlyScored as bs pairs) :
    pairs.length < as.length * bs.length ↔
      ∃ i < as.length, ∃ j < bs.length, ∀ x ∈ pairs, x.place ≠ (i, j) := by
  constructor
  · intro hlt
    by_contra hall
    have hsubset : Session.allPlaces as.length bs.length ⊆ pairs.map (·.place) := by
      rintro ⟨i, j⟩ hp
      obtain ⟨hi, hj⟩ := Session.mem_allPlaces.mp hp
      by_contra hnot
      exact hall ⟨i, hi, j, hj, fun x hx hxp => hnot (List.mem_map.mpr ⟨x, hx, hxp⟩)⟩
    have hle := ((Session.nodup_allPlaces _ _).subperm hsubset).length_le
    rw [Session.length_allPlaces, List.length_map] at hle
    omega
  · rintro ⟨i, hi, j, hj, hnone⟩
    have hle := h.length_le
    rw [Session.length_allPlaces, List.length_map] at hle
    refine Nat.lt_of_le_of_ne hle fun hlength => ?_
    obtain ⟨x, hx, ha, hb⟩ := h.exists_scored hlength hi hj
    exact hnone x hx (Prod.ext ha hb)

/-! ### Matchings -/

/-- **Every path is reported once.** Matching two programs, in any state of the session, is matching
them by the pairs that were scored, all of them or, in a context that has ended, only some.
Whichever pairs were scored, and however a sorter puts pairs of which neither is preferred:

* each place of either program is in one row, which describes the path of that place. Each matched
  row describes the two paths of a scored pair and has the verdict on it, no scored pair has both of
  its paths left over, and if all pairs are scored, the smaller program has none left over;
* matched rows come first, then the paths of the first program that are left over, and then those of
  the second, each sorted by index;
* the verdict on a path that is left over is unknown, and there is no confidence in it;
* the matching is incomplete exactly if there are fewer scores than pairs, that is, if some pair was
  not scored. -/
theorem rows_once (as bs : List Profile) :
    (∀ M s ctx endings, ∀ st : Session M, ∃ pairs,
      Session.Scoring M s ctx as bs pairs ∧ PartlyScored as bs pairs ∧
        (Session.matchPaths s ⟨ctx, endings⟩ as bs st).1 = ofScored s.sorter as bs pairs) ∧
    ∀ sorter pairs, PartlyScored as bs pairs →
      (∃ (l : Layout) (matched leftA leftB : List PairResult),
        (ofScored sorter as bs pairs).rows = matched ++ leftA ++ leftB ∧
        l.Describes as bs matched leftA leftB ∧ l.Covers as bs pairs ∧
        (pairs.length = as.length * bs.length → l.matched.length = min as.length bs.length)) ∧
      (∀ row ∈ (ofScored sorter as bs pairs).rows, row.unmatched = true →
        row.result.verdict = .unknown ∧ row.result.confidence = 0) ∧
      ((ofScored sorter as bs pairs).incomplete = true ↔
        pairs.length < as.length * bs.length) ∧
      ((ofScored sorter as bs pairs).incomplete = true ↔
        ∃ i < as.length, ∃ j < bs.length, ∀ x ∈ pairs, x.place ≠ (i, j)) := by
  constructor
  · intro M s ctx endings st
    obtain ⟨pairs, hscoring, hmatch⟩ := Session.scoring_matchPaths s ctx endings as bs st
    exact ⟨pairs, hscoring, hscoring.places, hmatch⟩
  · intro sorter pairs h
    have hincomplete : (ofScored sorter as bs pairs).incomplete = true ↔
        pairs.length < as.length * bs.length := decide_eq_true_iff
    obtain ⟨matched, leftA, leftB, hrows, hdescribes⟩ := describes_layout sorter h.inRange
    refine ⟨⟨_, matched, leftA, leftB, hrows, hdescribes, covers_layout h.inRange, ?_⟩,
      fun _ => unknown_of_unmatched, hincomplete, hincomplete.trans h.length_lt_iff⟩
    intro hlength
    exact length_chosen h.inRange fun i hi j hj => h.exists_scored hlength hi hj

/-- A comparison that was cut short: of two pairs, one was scored. -/
theorem rows_once_cut_short :
    let path (index : Int) : Profile := .ofPath ⟨index, "", "", [], [], [], .none⟩
    let as := [path 2, path 1]
    let bs := [path 1]
    let pairs : List ScoredPair := [⟨1, 0, PairResult.leftVerdict ""⟩]
    PartlyScored as bs pairs ∧ (ofScored .stable as bs pairs).incomplete = true ∧
      ∃ (l : Layout) (matched leftA leftB : List PairResult),
        (ofScored .stable as bs pairs).rows = matched ++ leftA ++ leftB ∧
        l.Describes as bs matched leftA leftB ∧ l.Covers as bs pairs := by
  intro path as bs pairs
  have h : PartlyScored as bs pairs := by decide
  obtain ⟨⟨l, matched, leftA, leftB, hrows, hdescribes, hcovers, -⟩, -, hincomplete, -⟩ :=
    (rows_once as bs).2 .stable pairs h
  exact ⟨h, hincomplete.mpr (by decide), l, matched, leftA, leftB, hrows, hdescribes, hcovers⟩

end Matching

end Pathwise
