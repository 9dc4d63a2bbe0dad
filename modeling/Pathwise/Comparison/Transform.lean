import Pathwise.Profile.Basic
import Pathwise.Verdict

/-!
# Comparing transformations

Two paths agree in their transformations if each occurs equally often on both. Otherwise the least
one for which that fails is reported.
-/

namespace Pathwise.Transform

/-- The transformations that occur on either side, each once and sorted. -/
def occurring (as bs : List Transformation) : List Transformation :=
  (firsts (as ++ bs)).mergeSort fun a b => !Transformation.before b a

/-- The least transformation that does not occur equally often on both sides. -/
def firstDifference? (as bs : List Transformation) : Option Transformation :=
  (occurring as bs).find? fun t => as.count t != bs.count t

/-- How often something occurs. -/
def timesText : Nat → String
  | 0 => "absent"
  | 1 => "present once"
  | n => "present " ++ toString n ++ " times"

/-- Compares the transformations of two paths. -/
def compare (a b : Profile) : LayerResult :=
  let as := a.transformations
  let bs := b.transformations
  match firstDifference? as bs with
  | some t =>
    { layer := .transform, verdict := .notEquivalent, score := 0
      detail := t.text ++ ": " ++ timesText (as.count t) ++ " vs " ++ timesText (bs.count t) }
  | none =>
    { layer := .transform, verdict := .equivalent, score := 1
      detail :=
        if as.isEmpty then "no transformations on either side"
        else toString as.length ++ " transformations agree" }

end Pathwise.Transform
