import Pathwise.Path.Error
import Pathwise.Session.Basic

/-!
# Programs

A program is given by its paths, as they were read from a directory or collected otherwise.
Comparing two programs matches their paths and reports on all of them.
-/

namespace Pathwise

/-- The paths of a program, the number of files that they were read from, and the files that were
refused. -/
structure PathSet where
  program : String
  dir : String
  files : Nat
  paths : List Profile
  errors : List Path.Refusal
  deriving Repr, Inhabited

namespace PathSet

/-- Paths that do not come from files. -/
def ofPaths (program : String) (paths : List Profile) : PathSet :=
  { program, dir := "", files := 0, paths, errors := [] }

/-- What identifies a set of paths in a report: its name, the fingerprints, and a zero byte. -/
def identity (s : PathSet) : List UInt8 :=
  s.program.toUTF8.toList ++ s.paths.flatMap (·.fingerprint) ++ [0]

/-- The refused files of a side. -/
def fileErrors (side : String) (s : PathSet) : List FileError :=
  s.errors.map fun r => ⟨side, r.file, r.line, r.cause.message⟩

end PathSet

namespace Report

/-- The id of a report. The same paths under the same policy have the same one. -/
def idOf (a b : PathSet) (policy : AddressPolicy) : String :=
  let digest := Keccak.digest (a.identity ++ b.identity ++ policy.name.toUTF8.toList)
  Keccak.hexDigits (digest.take 8)

/-- The report on two sets of paths. -/
def ofRows (s : Settings) (started : Instant) (elapsed : Duration) (a b : PathSet)
    (rows : List PairResult) (summary : Summary) : Report where
  id := idOf a b s.policy
  programA := a.program
  programB := b.program
  pathsA := a.paths.length
  pathsB := b.paths.length
  summary
  rows := keepRows rows
  fileErrors := a.fileErrors "A" ++ b.fileErrors "B"
  addressPolicy := s.policy.name
  oracle := s.oracleName
  startedAt := started
  duration := elapsed

/-- The report on two programs whose paths were matched. Once the context has ended, nothing in it
is complete. -/
def ofMatching (s : Settings) (ctx : Context) (started : Instant) (elapsed : Duration)
    (a b : PathSet) (m : Matching) : Report :=
  .ofRows s started elapsed a b m.rows (.ofRows m.rows (m.incomplete || ctx == .cancelled))

end Report

namespace Session

variable {M : VerdictMap}

/-- Compares two programs. -/
def compareSets (s : Settings) (course : Course) (started : Instant) (elapsed : Duration)
    (a b : PathSet) (st : Session M) : Report × Session M :=
  let (m, st) := matchPaths s course a.paths b.paths st
  let report := Report.ofMatching s course.ctx started elapsed a b m
  (report, st.count (.program report.summary.verdict))

/-- Compares two paths and reports on them. -/
def comparePair (s : Settings) (turn : Turn) (started : Instant) (elapsed : Duration)
    (a b : Profile) (st : Session M) : Report × Session M :=
  let (v, st) := compare s turn a b st
  let rows := [PairResult.matched a b v]
  (.ofRows s started elapsed (.ofPaths a.path.name [a]) (.ofPaths b.path.name [b]) rows
    (Summary.ofRows rows (turn.ctx == .cancelled)), st)

end Session

end Pathwise
