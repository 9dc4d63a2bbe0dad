import Pathwise.Layer.Basic

/-!
# Verdicts

What a comparison says: of two paths in one layer, of two paths, and of two programs.
-/

namespace Pathwise

/-- What a comparison of two paths says. -/
inductive Verdict where
  | unknown
  | equivalent
  | notEquivalent
  deriving Repr, DecidableEq, Inhabited

namespace Verdict

/-- All verdicts. -/
def all : List Verdict :=
  [unknown, equivalent, notEquivalent]

/-- The name of a verdict. -/
def name : Verdict → String
  | unknown => "unknown"
  | equivalent => "equivalent"
  | notEquivalent => "not_equivalent"

/-- The verdict with a given name. -/
def ofName (s : String) : Except UnknownName Verdict :=
  findNamed "verdict" all name s

end Verdict

/-- What a comparison of two programs says. -/
inductive ProgramVerdict where
  | partiallyEquivalent
  | equivalent
  | notEquivalent
  deriving Repr, DecidableEq, Inhabited

namespace ProgramVerdict

/-- All verdicts on programs. -/
def all : List ProgramVerdict :=
  [partiallyEquivalent, equivalent, notEquivalent]

/-- The name of a verdict on programs. -/
def name : ProgramVerdict → String
  | partiallyEquivalent => "partially_equivalent"
  | equivalent => "equivalent"
  | notEquivalent => "not_equivalent"

/-- The verdict on programs with a given name. -/
def ofName (s : String) : Except UnknownName ProgramVerdict :=
  findNamed "program verdict" all name s

end ProgramVerdict

/-- What the comparison in one layer says. The score is 0 or 1, and for memory a similarity between
them. -/
structure LayerResult where
  layer : Layer
  verdict : Verdict
  score : Float
  detail : String
  deriving Repr, Inhabited

/-- What the comparison of two paths says: the verdict and the confidence in it, the results in the
layers, and the oracle that was asked, if any. -/
structure PairVerdict where
  verdict : Verdict
  confidence : Float
  layers : Layered LayerResult
  oracle : String
  timedOut : Bool
  notes : List String
  deriving Repr, Inhabited

end Pathwise
