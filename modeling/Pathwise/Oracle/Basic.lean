import Pathwise.Profile.Basic
import Pathwise.Term.Eval

/-!
# Oracles

An oracle decides whether the constraints of two paths have the same solutions, once their symbols
are paired. An answer may come with an error, and then it does not count; oracles can also run into
the end of their context, which is either cancelled or past a deadline. Who asks an oracle does not
wait for its answer beyond the end of the context. If both are there at once, either can be taken.
-/

namespace Pathwise

/-- The context of a call: it goes on, or it was cancelled before the call. -/
inductive Context where
  | live
  | cancelled
  deriving Repr, DecidableEq, Inhabited

/-- Why an oracle has no answer. -/
inductive OracleError where
  | inputCount (a b : Nat)
  | inputWidth (place a b : Nat)
  | notEncodable
  | notEvaluable (label : String) (cause : EvalError)
  | noCounterexample (name : String)
  | cancelled
  | deadline
  | other (text : String)
  deriving Repr, DecidableEq, Inhabited

namespace OracleError

/-- The wording of an error. -/
def message : OracleError → String
  | inputCount a b => "input arity mismatch: " ++ toString a ++ " vs " ++ toString b
  | inputWidth i a b =>
    "input arity mismatch: input #" ++ toString i ++ " width " ++ toString a ++ " vs " ++ toString b
  | notEncodable => "constraints cannot be encoded"
  | notEvaluable label cause => label ++ ": constraints cannot be encoded\n" ++ cause.message
  | noCounterexample name =>
    name ++ " fallback: no separating input among the sampled values"
  | cancelled => "context canceled"
  | deadline => "context deadline exceeded"
  | other text => text

end OracleError

namespace Oracle

/-- The answer of an oracle. It counts only if there is no error. -/
structure Answer where
  value : Bool
  error : Option OracleError
  deriving Repr, DecidableEq, Inhabited

/-- An answer that counts. -/
def Answer.ok (value : Bool) : Answer :=
  ⟨value, none⟩

/-- No answer. -/
def Answer.failed (e : OracleError) : Answer :=
  ⟨false, some e⟩

/-- What ends the wait for an answer: the answer itself, or that the context is past its deadline or
cancelled. -/
inductive Ending where
  | answered
  | deadline
  | cancelled
  deriving Repr, DecidableEq, Inhabited

/-- What is taken for the answer in the end. -/
def Ending.result (answer : Answer) : Ending → Answer
  | answered => answer
  | deadline => .failed .deadline
  | cancelled => .failed .cancelled

end Oracle

/-- In what circumstances two paths are compared: the context, and what ends the wait for an oracle.
The latter is not decided by the former, since it depends on what comes first. -/
structure Turn where
  ctx : Context
  ending : Oracle.Ending
  deriving Repr, DecidableEq, Inhabited

/-- An oracle: whether two paths have the same solutions. -/
structure Oracle where
  name : String
  decide : Context → Profile → Profile → Oracle.Answer

namespace Oracle

/-- An oracle that answers nothing until its context ends. -/
def waiting (name : String) : Oracle where
  name
  decide ctx _ _ :=
    match ctx with
    | .live => .failed .deadline
    | .cancelled => .failed .cancelled

/-- An oracle that always gives the same answer. -/
def constant (name : String) (answer : Answer) : Oracle where
  name
  decide _ _ _ := answer

/-- Whether a second oracle is asked after the first has answered. -/
def asksFallback (ctx : Context) (answer : Answer) : Bool :=
  answer.error.isSome && ctx == .live

/-- Asks a second oracle where the first fails. The second can only refute: if it finds the paths to
be the same, there is no answer. -/
def withFallback (primary fallback : Oracle) : Oracle where
  name := "hybrid"
  decide ctx a b :=
    let first := primary.decide ctx a b
    if asksFallback ctx first then
      let second := fallback.decide ctx a b
      if second.error.isNone && second.value then .failed (.noCounterexample fallback.name)
      else second
    else first

end Oracle

end Pathwise
