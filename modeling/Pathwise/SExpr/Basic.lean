/-!
# S-expressions

An S-expression is an atom or a list of S-expressions. Each node knows the line on which it begins,
so that a fault found in it later can be reported there. The text of an atom is what it denotes:
for a symbol between bars the characters between them, for a string literal the characters with
the double quotes.
-/

namespace Pathwise

/-- An atom or a list, with the line on which it begins. -/
inductive SExpr where
  | atom (line : Nat) (text : String)
  | list (line : Nat) (items : List SExpr)
  deriving Repr, Inhabited

namespace SExpr

/-- The line on which an expression begins. -/
def line : SExpr → Nat
  | atom l _ => l
  | list l _ => l

/-- Whether an expression is a list. -/
def isList : SExpr → Bool
  | atom _ _ => false
  | list _ _ => true

/-- The text of an atom; a list has none. -/
def atomText : SExpr → String
  | atom _ t => t
  | list _ _ => ""

/-- The items of a list; an atom has none. -/
def items : SExpr → List SExpr
  | atom _ _ => []
  | list _ es => es

/-- The text of the atom that begins a list, if an atom begins it. -/
def head : SExpr → String
  | list _ (e :: _) => e.atomText
  | _ => ""

mutual

/-- An expression in canonical form: items with one space between them. -/
def text : SExpr → String
  | atom _ t => t
  | list _ es => "(" ++ String.intercalate " " (texts es) ++ ")"

/-- The canonical forms of some expressions. -/
def texts : List SExpr → List String
  | [] => []
  | e :: es => e.text :: texts es

end

end SExpr

end Pathwise
