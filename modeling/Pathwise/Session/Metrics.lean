import Pathwise.Verdict

/-!
# Metrics

Counters of what a session has done.
-/

namespace Pathwise

/-- What is counted. -/
inductive Counter where
  | comparison (verdict : Verdict)
  | layer (layer : Layer) (verdict : Verdict)
  | oracleCall (oracle outcome : String)
  | cacheHit
  | cacheMiss
  | program (verdict : ProgramVerdict)
  | fileError
  deriving Repr, DecidableEq, Inhabited

/-- The name of a counter with its labels. -/
def Counter.label : Counter → String
  | comparison v => "comparisons_total,verdict=" ++ v.name
  | layer l v => "layer_verdicts_total,layer=" ++ l.name ++ ",verdict=" ++ v.name
  | oracleCall o r => "oracle_calls_total,oracle=" ++ o ++ ",outcome=" ++ r
  | cacheHit => "cache_hits_total"
  | cacheMiss => "cache_misses_total"
  | program v => "program_verdicts_total,verdict=" ++ v.name
  | fileError => "parse_errors_total"

/-- Counters with how often they were counted, those at zero left out, and the number of comparisons
whose duration was observed. -/
structure Metrics where
  counts : List (Counter × Nat)
  observations : Nat
  deriving Repr, Inhabited

namespace Metrics

/-- Nothing counted. -/
def empty : Metrics :=
  ⟨[], 0⟩

/-- How often something was counted. -/
def count (m : Metrics) (c : Counter) : Nat :=
  ((m.counts.find? (·.1 == c)).map (·.2)).getD 0

/-- Adds to a list of counts. -/
def addTo (c : Counter) (n : Nat) : List (Counter × Nat) → List (Counter × Nat)
  | [] => if n = 0 then [] else [(c, n)]
  | (d, m) :: rest => if d = c then (d, m + n) :: rest else (d, m) :: addTo c n rest

/-- Counts something a number of times. -/
def add (m : Metrics) (c : Counter) (n : Nat) : Metrics :=
  { m with counts := addTo c n m.counts }

/-- Counts something once. -/
def inc (m : Metrics) (c : Counter) : Metrics :=
  m.add c 1

/-- Counts a comparison with its verdicts. -/
def observe (m : Metrics) (v : PairVerdict) : Metrics :=
  let counted := v.layers.toList.foldl (fun m r => m.inc (.layer r.layer r.verdict))
    (m.inc (.comparison v.verdict))
  { counted with observations := counted.observations + 1 }

end Metrics

end Pathwise
