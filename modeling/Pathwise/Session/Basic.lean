import Pathwise.Comparison.Aggregate
import Pathwise.Comparison.ControlFlow
import Pathwise.Comparison.Memory
import Pathwise.Comparison.Transform
import Pathwise.Matching
import Pathwise.Oracle.Basic
import Pathwise.Session.Cache
import Pathwise.Session.Metrics

/-!
# Sessions

A session compares paths and programs under fixed settings. It remembers verdicts by the
fingerprints of the paths, in a bounded map, and counts what it does.

* **Outputs** that are recorded on both paths and differ leave no verdict but an open one, or that
  the paths are not equivalent.
* **The oracle** is asked only where the layers leave the verdict open. What it says is remembered,
  unless it ran out of time or was cancelled.
-/

namespace Pathwise

/-- What a session is asked to do, and how it sorts. The cache is off without a size. -/
structure Settings where
  policy : AddressPolicy
  thresholds : Memory.Thresholds
  weights : Weights
  ignoreOutputs : Bool
  timeout : Duration
  oracle : Option Oracle
  cacheSize : Option Nat
  sorter : Sorter

/-- The name of the oracle. -/
def Settings.oracleName (s : Settings) : String :=
  match s.oracle with
  | some o => o.name
  | none => "none"

/-- A bounded map in which verdicts are remembered by the fingerprints of the two paths. -/
abbrev VerdictMap : Type 1 :=
  BoundedMap (Keccak.Digest × Keccak.Digest) PairVerdict

/-- The state of a session: the verdicts that are remembered, the counters, and how often the oracle
was asked. -/
structure Session (M : VerdictMap) where
  cache : M.State
  metrics : Metrics
  oracleCalls : Nat

namespace Session

variable {M : VerdictMap}

/-- The state in which a session begins. -/
def start (M : VerdictMap) (s : Settings) : Session M :=
  ⟨M.empty (s.cacheSize.getD 0), .empty, 0⟩

/-- Counts something once. -/
def count (c : Counter) (st : Session M) : Session M :=
  { st with metrics := st.metrics.inc c }

/-- Counts a comparison. -/
def observe (v : PairVerdict) (st : Session M) : Session M :=
  { st with metrics := st.metrics.observe v }

/-! ### Pairs of paths -/

/-- The verdict of the layers. -/
def structural (s : Settings) (a b : Profile) : PairVerdict :=
  Aggregate.combine
    ⟨ControlFlow.compare a b, Memory.compare s.policy s.thresholds a b, Transform.compare a b⟩
    s.weights

/-- The note on outputs that differ. -/
def outputNote (a b : Profile) : String :=
  "observed outputs differ: " ++ a.path.output.shown ++ " vs " ++ b.path.output.shown

/-- The verdict on paths whose outputs differ. -/
def withOutputs (a b : Profile) (v : PairVerdict) : PairVerdict :=
  let noted := { v with notes := v.notes ++ [outputNote a b] }
  if v.verdict = .notEquivalent then noted
  else { noted with verdict := .unknown, confidence := v.confidence * 0.5 }

/-- What asking an oracle came to. -/
inductive Outcome where
  | sampled
  | equisatisfiable
  | distinct
  | timeout
  | cancelled
  | error (text : String)
  deriving Repr, DecidableEq, Inhabited

namespace Outcome

/-- What the answer of an oracle comes to. -/
def ofAnswer (name : String) (answer : Oracle.Answer) : Outcome :=
  match answer.error with
  | some .deadline => timeout
  | some .cancelled => cancelled
  | some e => error e.message
  | none =>
    if !answer.value then distinct
    else if name = "sampling" then sampled
    else equisatisfiable

/-- How an outcome is counted. -/
def name : Outcome → String
  | sampled => "sampled"
  | equisatisfiable => "equisatisfiable"
  | distinct => "distinct"
  | timeout => "timeout"
  | cancelled => "cancelled"
  | error _ => "error"

/-- The note on an outcome. -/
def note (limit : Duration) : Outcome → String
  | sampled => "no separating input among the sampled values, equivalence not proven"
  | equisatisfiable => "constraint sets are equisatisfiable"
  | distinct => "found an input separating the paths"
  | timeout => "comparison timed out after " ++ limit.text
  | cancelled => "cancelled"
  | error text => text

/-- Whether a verdict with this outcome can be remembered. -/
def isFinal : Outcome → Bool
  | timeout => false
  | cancelled => false
  | _ => true

/-- The highest confidence in paths that only samples found to be equivalent. -/
def sampledConfidence : Float := 0.6

/-- The verdict and the confidence after an outcome. -/
def settle (w : Weights) (v : PairVerdict) : Outcome → Verdict × Float
  | sampled =>
    (.equivalent, Aggregate.smaller (Aggregate.clamp (Aggregate.weightedScore v.layers w))
      sampledConfidence)
  | equisatisfiable => (.equivalent, Aggregate.clamp (Aggregate.weightedScore v.layers w))
  | distinct => (.notEquivalent, Aggregate.differenceConfidence .unknown v.layers w)
  | _ => (v.verdict, v.confidence)

end Outcome

/-- The verdict on paths about which an oracle was asked. -/
def withOutcome (s : Settings) (name : String) (v : PairVerdict) (o : Outcome) : PairVerdict :=
  let (verdict, confidence) := o.settle s.weights v
  { v with
    verdict
    confidence
    oracle := name
    timedOut := v.timedOut || o == .timeout
    notes := v.notes ++ ["oracle " ++ name ++ ": " ++ o.note s.timeout] }

/-- A verdict that was just found, and whether it can be remembered. -/
structure Finding where
  verdict : PairVerdict
  isFinal : Bool
  outcome : Option (String × Outcome)
  deriving Repr, Inhabited

/-- What asking an oracle about two paths comes to, at most in the time that is allowed. -/
def consult (oracle : Oracle) (turn : Turn) (a b : Profile) : Outcome :=
  .ofAnswer oracle.name (turn.ending.result (oracle.decide turn.ctx a b))

/-- Compares two paths without looking at what is remembered. -/
def judge (s : Settings) (turn : Turn) (a b : Profile) : Finding :=
  let v := structural s a b
  if !s.ignoreOutputs && a.path.output.differs b.path.output then
    ⟨withOutputs a b v, true, none⟩
  else
    match v.verdict, s.oracle with
    | .unknown, some oracle =>
      let o := consult oracle turn a b
      ⟨withOutcome s oracle.name v o, o.isFinal, some (oracle.name, o)⟩
    | _, _ => ⟨v, true, none⟩

/-- Counts the call of an oracle. -/
def countCall (call : Option (String × Outcome)) (st : Session M) : Session M :=
  match call with
  | some (name, o) =>
    { st.count (.oracleCall name o.name) with oracleCalls := st.oracleCalls + 1 }
  | none => st

/-- Remembers a verdict. -/
def remember (s : Settings) (a b : Profile) (v : PairVerdict) (st : Session M) : Session M :=
  if s.cacheSize.isSome then
    { st with cache := M.add st.cache (a.fingerprint, b.fingerprint) v }
  else st

/-- Compares two paths that are not remembered. -/
def compareAnew (s : Settings) (turn : Turn) (a b : Profile) (st : Session M) :
    PairVerdict × Session M :=
  let found := judge s turn a b
  let st := st.countCall found.outcome
  let st := if found.isFinal then st.remember s a b found.verdict else st
  (found.verdict, st.observe found.verdict)

/-- Compares two paths. -/
def compare (s : Settings) (turn : Turn) (a b : Profile) (st : Session M) :
    PairVerdict × Session M :=
  if s.cacheSize.isNone then compareAnew s turn a b st
  else
    let (found, cache) := M.get st.cache (a.fingerprint, b.fingerprint)
    let st := { st with cache }
    match found with
    | some v => (v, (st.count .cacheHit).observe v)
    | none => compareAnew s turn a b (st.count .cacheMiss)

/-! ### Programs -/

/-- In what circumstances programs are compared: the context, and what ends the wait for an oracle
at each pair of places. -/
structure Course where
  ctx : Context
  ending : Nat × Nat → Oracle.Ending

/-- The circumstances at a pair of places. -/
def Course.turn (c : Course) (place : Nat × Nat) : Turn :=
  ⟨c.ctx, c.ending place⟩

/-- Compares the pairs at some places, in their order. -/
def scorePairs (s : Settings) (course : Course) (as bs : List Profile) :
    List (Nat × Nat) → Session M → List ScoredPair × Session M
  | [], st => ([], st)
  | (i, j) :: rest, st =>
    match as[i]?, bs[j]? with
    | some a, some b =>
      let (v, st) := compare s (course.turn (i, j)) a b st
      let (scored, st) := scorePairs s course as bs rest st
      (⟨i, j, v⟩ :: scored, st)
    | _, _ => scorePairs s course as bs rest st

/-- The places of all pairs, row by row. -/
def allPlaces (m n : Nat) : List (Nat × Nat) :=
  (List.range m).flatMap fun i => (List.range n).map fun j => (i, j)

/-- Compares all pairs of paths, or none if the context has ended, and matches them. -/
def matchPaths (s : Settings) (course : Course) (as bs : List Profile) (st : Session M) :
    Matching × Session M :=
  let places := if course.ctx = .live then allPlaces as.length bs.length else []
  let (scored, st) := scorePairs s course as bs places st
  (.ofScored s.sorter as bs scored, st)

end Session

end Pathwise
