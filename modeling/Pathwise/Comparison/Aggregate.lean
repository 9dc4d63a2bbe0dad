import Pathwise.Verdict

/-!
# Aggregation

The verdict on two paths from those in the layers.

* **Not equivalent**, if they differ in some layer. The confidence is lower the more a layer weighs
  in which they differ.
* **Equivalent**, if they agree in all layers. The confidence is the weighted mean of the scores.
* **Unknown** otherwise. The confidence is half the mean score of the layers in which they agree.

All confidences are brought into the range from 0 to 1.
-/

namespace Pathwise

/-- What the layers weigh in a confidence. -/
abbrev Weights := Layered Float

namespace Weights

/-- The weights if nothing else is asked for. -/
def default : Weights :=
  ⟨0.4, 0.35, 0.25⟩

/-- The sum of the weights. -/
def sum (w : Weights) : Float :=
  w.controlFlow + w.memory + w.transform

end Weights

namespace Aggregate

/-- The larger of two numbers, and no number if one of them is none. -/
def larger (x y : Float) : Float :=
  if x < y || y.isNaN then y else x

/-- The smaller of two numbers, and no number if one of them is none. -/
def smaller (x y : Float) : Float :=
  if y < x || y.isNaN then y else x

/-- The nearest number between 0 and 1. -/
def clamp (x : Float) : Float :=
  if x < 0 then 0 else if x > 1 then 1 else x

/-- The greatest weight of a layer with the given verdict, or 0. -/
def heaviest (v : Verdict) (layers : Layered LayerResult) (w : Weights) : Float :=
  layers.toList.foldl (fun x r => if r.verdict = v then larger x (w.get r.layer) else x) 0

/-- The weighted mean of the scores. -/
def weightedScore (layers : Layered LayerResult) (w : Weights) : Float :=
  layers.toList.foldl (fun x r => x + w.get r.layer * r.score) 0 / w.sum

/-- The confidence that paths differ whose layers with the given verdict speak for it. -/
def differenceConfidence (v : Verdict) (layers : Layered LayerResult) (w : Weights) : Float :=
  clamp (1 - heaviest v layers w / w.sum)

/-- The confidence in an open verdict. -/
def openConfidence (layers : Layered LayerResult) : Float :=
  match layers.toList.filter (·.verdict == .equivalent) with
  | [] => 0
  | agreed => clamp (0.5 * agreed.foldl (fun x r => x + r.score) 0 / Float.ofNat agreed.length)

/-- The verdict that the verdicts of the layers amount to. -/
def overall (layers : Layered LayerResult) : Verdict :=
  if layers.toList.any (·.verdict == .notEquivalent) then .notEquivalent
  else if layers.toList.all (·.verdict == .equivalent) then .equivalent
  else .unknown

/-- The confidence in the overall verdict. -/
def confidence (layers : Layered LayerResult) (w : Weights) : Float :=
  match overall layers with
  | .notEquivalent => differenceConfidence .notEquivalent layers w
  | .equivalent => clamp (weightedScore layers w)
  | .unknown => openConfidence layers

/-- Results with each in the layer of its place. -/
def placed (layers : Layered LayerResult) : Layered LayerResult :=
  .ofFn fun l => { layers.get l with layer := l }

/-- The verdict on two paths from the results in the layers. Weights without a positive sum are
replaced by the default ones. -/
def combine (results : Layered LayerResult) (w : Weights) : PairVerdict :=
  let weights := if w.sum ≤ 0 then Weights.default else w
  let layers := placed results
  { verdict := overall layers
    confidence := confidence layers weights
    layers
    oracle := ""
    timedOut := false
    notes := [] }

end Aggregate

/-- The score by which pairs of paths are chosen: equivalent pairs come before open ones, and those
before pairs that are not equivalent. -/
def PairVerdict.score (v : PairVerdict) : Float :=
  match v.verdict with
  | .equivalent => 2 + v.confidence
  | .unknown => 1 + v.confidence
  | .notEquivalent => 1 - v.confidence

end Pathwise
