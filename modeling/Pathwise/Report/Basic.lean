import Pathwise.Path.Basic
import Pathwise.Profile.Basic
import Pathwise.Time.Duration
import Pathwise.Time.Instant
import Pathwise.Verdict

/-!
# Reports

What a comparison of two programs found: a row for each pair of paths and for each path that is left
over, a summary of them, and the files that could not be read.
-/

namespace Pathwise

/-- How a report refers to a path. -/
structure PathRef where
  index : Int
  name : String
  fingerprint : String
  output : String
  deriving Repr, DecidableEq, Inhabited

/-- The reference to a path. -/
def Profile.ref (p : Profile) : PathRef where
  index := p.path.index
  name := p.path.name
  fingerprint := p.fingerprintText
  output := p.path.output.shown

/-- A row of a report: two paths with the verdict on them, or one path that is left over. -/
structure PairResult where
  a : Option PathRef
  b : Option PathRef
  unmatched : Bool
  result : PairVerdict
  deriving Repr, Inhabited

namespace PairResult

/-- The verdict on a path that is left over. -/
def leftVerdict (note : String) : PairVerdict where
  verdict := .unknown
  confidence := 0
  layers := .ofFn fun l => ⟨l, .unknown, 0, ""⟩
  oracle := ""
  timedOut := false
  notes := [note]

/-- The row of two paths. -/
def matched (a b : Profile) (v : PairVerdict) : PairResult :=
  ⟨some a.ref, some b.ref, false, v⟩

/-- The row of a path of the first program that is left over. -/
def leftA (p : Profile) : PairResult :=
  ⟨some p.ref, none, true, leftVerdict "no counterpart in program B"⟩

/-- The row of a path of the second program that is left over. -/
def leftB (p : Profile) : PairResult :=
  ⟨none, some p.ref, true, leftVerdict "no counterpart in program A"⟩

end PairResult

/-- The counts of the rows of a report, and the verdict on the programs. -/
structure Summary where
  verdict : ProgramVerdict
  pairs : Int
  equivalentPairs : Int
  partialPairs : Int
  notEquivalentPairs : Int
  unmatchedA : Int
  unmatchedB : Int
  unmatchedCount : Int
  meanConfidence : Float
  incomplete : Bool
  deriving Repr, Inhabited

namespace Summary

/-- The number of rows with a property. -/
def countRows (p : PairResult → Bool) (rows : List PairResult) : Nat :=
  (rows.filter p).length

/-- The verdict on two programs by the counts of pairs: equivalent if all paths have an equivalent
partner, not equivalent if two partners are not. Where the comparison is incomplete nothing is
certain. -/
def verdictOf (incomplete : Bool) (pairs equivalent different left : Nat) : ProgramVerdict :=
  if incomplete then .partiallyEquivalent
  else if different > 0 then .notEquivalent
  else if pairs > 0 && equivalent = pairs && left = 0 then .equivalent
  else .partiallyEquivalent

/-- The summary of some rows. -/
def ofRows (rows : List PairResult) (incomplete : Bool) : Summary :=
  let pairs := rows.filter (!·.unmatched)
  let count (v : Verdict) := countRows (·.result.verdict == v) pairs
  let leftA := countRows (fun r => r.unmatched && r.a.isSome) rows
  let leftB := countRows (fun r => r.unmatched && r.a.isNone) rows
  { verdict := verdictOf incomplete pairs.length (count .equivalent) (count .notEquivalent)
      (leftA + leftB)
    pairs := pairs.length
    equivalentPairs := count .equivalent
    partialPairs := count .unknown
    notEquivalentPairs := count .notEquivalent
    unmatchedA := leftA
    unmatchedB := leftB
    unmatchedCount := leftA + leftB
    meanConfidence :=
      if pairs.isEmpty then 0
      else pairs.foldl (fun x r => x + r.result.confidence) 0 / Float.ofNat pairs.length
    incomplete }

end Summary

/-- A file of one side that could not be read, with the line where that became clear, or 0. -/
structure FileError where
  side : String
  file : String
  line : Int
  message : String
  deriving Repr, DecidableEq, Inhabited

/-- The report on two programs. There are no rows at all if there was nothing to compare. -/
structure Report where
  id : String
  programA : String
  programB : String
  pathsA : Int
  pathsB : Int
  summary : Summary
  rows : Option (List PairResult)
  fileErrors : List FileError
  addressPolicy : String
  oracle : String
  startedAt : Instant
  duration : Duration
  deriving Repr, Inhabited

namespace Report

/-- The rows of a report. -/
def pairs (r : Report) : List PairResult :=
  r.rows.getD []

/-- Rows as a report keeps them. -/
def keepRows (rows : List PairResult) : Option (List PairResult) :=
  if rows.isEmpty then none else some rows

end Report

end Pathwise
