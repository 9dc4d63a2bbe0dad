import Pathwise.SExpr.Basic
import Pathwise.SExpr.Token

/-!
# Reading S-expressions

The second half of reading: tokens to expressions. Lists that are still open wait on a stack, the
innermost on top. The first token that cannot be placed ends the reading; a text that ends inside
a list is faulted at the innermost list that is open there.
-/

namespace Pathwise.SExpr

/-- Why a text is no sequence of S-expressions. -/
inductive Fault where
  | unbalanced
  | strayClosing
  | unterminatedSymbol
  | unterminatedString
  deriving Repr, DecidableEq, Inhabited

/-- The wording of a fault. -/
def Fault.message : Fault → String
  | unbalanced => "unbalanced parenthesis"
  | strayClosing => "unexpected ')'"
  | unterminatedSymbol => "unterminated quoted symbol"
  | unterminatedString => "unterminated string literal"

/-- A list whose end has not been read: its line, and its items in reverse. -/
structure Open where
  line : Nat
  items : List SExpr

/-- Adds an expression to the innermost open list, or to the finished ones if none is open. -/
def place (e : SExpr) : List Open → List SExpr → List Open × List SExpr
  | [], done => ([], e :: done)
  | o :: rest, done => ({ o with items := e :: o.items } :: rest, done)

/-- Reads tokens, given the open lists and, in reverse, the expressions already read. A fault comes
with the line to report it on. -/
def assemble : List Open → List SExpr → List Token → Except (Nat × Fault) (List SExpr)
  | [], done, [] => .ok done.reverse
  | o :: _, _, [] => .error (o.line, .unbalanced)
  | os, done, .opening l :: ts => assemble (⟨l, []⟩ :: os) done ts
  | [], _, .closing l :: _ => .error (l, .strayClosing)
  | o :: os, done, .closing _ :: ts =>
    let (os', done') := place (.list o.line o.items.reverse) os done
    assemble os' done' ts
  | os, done, .atom l t :: ts =>
    let (os', done') := place (.atom l t) os done
    assemble os' done' ts
  | _, _, .openSymbol l :: _ => .error (l, .unterminatedSymbol)
  | _, _, .openString l :: _ => .error (l, .unterminatedString)

/-- The S-expressions of a text, in order. -/
def readAll (cs : List Char) : Except (Nat × Fault) (List SExpr) :=
  assemble [] [] (Token.scan cs)

end Pathwise.SExpr
