import Pathwise.Observed
import Pathwise.Term.Basic

/-!
# Paths

A path is one run of a program with symbolic inputs: the symbols that were declared, the memory
locations that were touched, in the order in which they were first touched, and the constraints
under which the program takes this path.
-/

namespace Pathwise

/-- A constraint, with its position on the path. -/
structure Constraint where
  index : Nat
  term : Term
  deriving Repr, Inhabited

/-- The canonical text of a constraint. -/
def Constraint.text (c : Constraint) : String :=
  c.term.text

/-- A path. The index numbers it among the paths of a program and is -1 if it is not known; the
source is the file that it was read from. -/
structure Path where
  index : Int
  name : String
  source : String
  declared : List Variable
  memory : List Location
  constraints : List Constraint
  output : Observed
  deriving Repr, Inhabited

namespace Path

/-- The inputs, in the order of their declaration. -/
def inputs (p : Path) : List Variable :=
  p.declared.filter (·.role == .input)

/-- The variable with a given name. -/
def lookup? (p : Path) (name : String) : Option Variable :=
  p.declared.find? (·.name == name)

/-- How reports call a path. -/
def label (p : Path) : String :=
  let number := "#" ++ toString p.index
  if p.name = "" then number else number ++ " (" ++ p.name ++ ")"

end Path

end Pathwise
