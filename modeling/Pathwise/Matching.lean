import Pathwise.Comparison.Aggregate
import Pathwise.Report.Basic
import Pathwise.Sorting

/-!
# Matching the paths of two programs

Each path gets at most one partner in the other program. Pairs are chosen greedily: those with the
highest score first, and of equal scores those whose paths have the smaller index. Which pairs have
been scored is up to the caller, since a comparison can be cut short. So is the way of sorting,
which decides between pairs of which neither is preferred.
-/

namespace Pathwise

/-- A pair of paths, by their places, with the verdict on it. -/
structure ScoredPair where
  a : Nat
  b : Nat
  verdict : PairVerdict
  deriving Repr, Inhabited

/-- What matching found. -/
structure Matching where
  rows : List PairResult
  scored : Nat
  total : Nat
  deriving Repr, Inhabited

namespace Matching

/-- Whether there are pairs that were not scored. -/
def incomplete (m : Matching) : Bool :=
  m.scored < m.total

/-- The index of the path at a place. -/
def indexAt (paths : List Profile) (place : Nat) : Int :=
  (paths[place]?.map (·.path.index)).getD 0

/-- Whether a pair is chosen before another. -/
def precedes (as bs : List Profile) (x y : ScoredPair) : Bool :=
  let sx := x.verdict.score
  let sy := y.verdict.score
  if sx != sy then sx > sy
  else if indexAt as x.a ≠ indexAt as y.a then indexAt as x.a < indexAt as y.a
  else indexAt bs x.b < indexAt bs y.b

/-- Pairs in the order in which they are chosen. -/
def ordered (sorter : Sorter) (as bs : List Profile) (pairs : List ScoredPair) :
    List ScoredPair :=
  sorter.sort (precedes as bs) pairs

/-- Chooses from ordered pairs, each time the first both of whose paths are free, as long as there
is room for more. Given are the places that are taken. -/
def choose : Nat → List Nat → List Nat → List ScoredPair → List ScoredPair
  | 0, _, _, _ => []
  | _, _, _, [] => []
  | room + 1, takenA, takenB, x :: xs =>
    if x.a ∈ takenA || x.b ∈ takenB then choose (room + 1) takenA takenB xs
    else x :: choose room (x.a :: takenA) (x.b :: takenB) xs

/-- Places sorted by the index of the paths there. -/
def byIndex (sorter : Sorter) (paths : List Profile) (places : List Nat) : List Nat :=
  sorter.sort (fun i j => indexAt paths i < indexAt paths j) places

/-- The paths that are not taken, sorted by their index. -/
def leftOver (sorter : Sorter) (paths : List Profile) (taken : List Nat) : List Profile :=
  (byIndex sorter paths ((List.range paths.length).filter (· ∉ taken))).filterMap (paths[·]?)

/-- The row of a chosen pair. -/
def row? (as bs : List Profile) (x : ScoredPair) : Option PairResult := do
  return .matched (← as[x.a]?) (← bs[x.b]?) x.verdict

/-- The chosen pairs, sorted by the index of the first path. There is room for as many as the
smaller program has paths. -/
def chosen (sorter : Sorter) (as bs : List Profile) (pairs : List ScoredPair) :
    List ScoredPair :=
  sorter.sort (fun x y => indexAt as x.a < indexAt as y.a)
    (choose (min as.length bs.length) [] [] (ordered sorter as bs pairs))

/-- Matches paths by scored pairs. -/
def ofScored (sorter : Sorter) (as bs : List Profile) (pairs : List ScoredPair) : Matching :=
  let chosenPairs := chosen sorter as bs pairs
  { rows := chosenPairs.filterMap (row? as bs) ++
      (leftOver sorter as (chosenPairs.map (·.a))).map PairResult.leftA ++
      (leftOver sorter bs (chosenPairs.map (·.b))).map PairResult.leftB
    scored := pairs.length
    total := as.length * bs.length }

end Matching

end Pathwise
