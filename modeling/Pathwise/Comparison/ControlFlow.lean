import Pathwise.Profile.Basic
import Pathwise.Verdict

/-!
# Comparing control flow

Two paths agree in their control flow if they have the same number of inputs, and the domains of
inputs in the same place are equal.
-/

namespace Pathwise.ControlFlow

/-- What is wrong with the first pair of inputs whose domains differ. The first pair has the given
place. -/
def firstDifference? (place : Nat) :
    List (Variable × Domain) → List (Variable × Domain) → Option String
  | (v, d) :: as, (w, e) :: bs =>
    if d = e then firstDifference? (place + 1) as bs
    else
      some ("input #" ++ toString place ++ " (" ++ v.name ++ " vs " ++ w.name ++ "): " ++ d.text ++
        " vs " ++ e.text)
  | _, _ => none

/-- Compares the control flow of two paths. -/
def compare (a b : Profile) : LayerResult :=
  let ins := a.path.inputs
  let others := b.path.inputs
  if ins.length ≠ others.length then
    { layer := .controlFlow, verdict := .notEquivalent, score := 0
      detail := "arity mismatch (" ++ toString ins.length ++ " vs " ++ toString others.length ++
        " input variables)" }
  else
    match firstDifference? 0 (ins.zip a.domains) (others.zip b.domains) with
    | some detail => { layer := .controlFlow, verdict := .notEquivalent, score := 0, detail }
    | none =>
      { layer := .controlFlow, verdict := .equivalent, score := 1
        detail :=
          if ins.isEmpty then "no input variables"
          else toString ins.length ++ " input domains agree" }

end Pathwise.ControlFlow
