import Pathwise.Layer.Basic

/-!
# Transformations

The computations that constraints make with data: which operator is applied to how many operands,
and the first operand that is a literal. They are compared as collections, so they are kept sorted.
-/

namespace Pathwise

/-- One application of an operator that computes with data. -/
structure Transformation where
  op : Op
  arity : Nat
  constant : Option Nat
  deriving Repr, DecidableEq, Inhabited

namespace Transformation

/-- A transformation for reports. -/
def text (t : Transformation) : String :=
  let head := t.op.name ++ "/" ++ toString t.arity
  match t.constant with
  | none => head
  | some n => head ++ " const=" ++ toString n

/-- A number that orders constants; the absent one comes first. -/
def constantRank (t : Transformation) : Nat :=
  match t.constant with
  | none => 0
  | some n => n + 1

/-- Whether a transformation comes before another: by operator, number of operands, constant. -/
def before (a b : Transformation) : Bool :=
  if a.op.number ≠ b.op.number then a.op.number < b.op.number
  else if a.arity ≠ b.arity then a.arity < b.arity
  else a.constantRank < b.constantRank

/-- The transformation that a subterm makes by itself. -/
def ofTerm? : Term → Option Transformation
  | .apply (.op o _) args _ =>
    if o.isTransform then some ⟨o, args.length, args.findSome? Term.literal?⟩ else none
  | _ => none

/-- The transformations in a term, address arithmetic aside, in the order of the subterms. -/
def ofTerm (t : Term) : List Transformation :=
  t.dataTerms.filterMap ofTerm?

/-- The transformations that constraints make, sorted. -/
def ofConstraints (cs : List Constraint) : List Transformation :=
  (cs.flatMap fun c => ofTerm c.term).mergeSort fun a b => !before b a

end Transformation

end Pathwise
