import Pathwise.SExpr.Reader
import Pathwise.Term.Basic
import Pathwise.Text.Quoted

/-!
# Faults of path files

The causes for which a path file is refused, and their wording. Names and literals that the file
gives are quoted; expressions are shown in canonical form.
-/

namespace Pathwise.Path

/-- Why a path file is refused. -/
inductive Cause where
  | reading (fault : SExpr.Fault)
  | topLevelAtom (text : String)
  | unknownCommand (name : String)
  | declareFunShape
  | declareConstShape
  | functionArguments
  | declaredName
  | duplicate (name : String)
  | unknownSort (sort : String)
  | sortWidth (width : String)
  | assertShape
  | notBoolean (term : String)
  | emptyExpression
  | undeclared (name : String)
  | radixLiteral (text : String)
  | literalShape (text : String)
  | literalWidth (text : String)
  | literalSize (value : Int) (width : Nat)
  | indexedHead (head : String)
  | indexShape (index : String) (head : String)
  | letShape
  | bindingShape
  | argumentCount (operator : String) (count : Nat)
  | extractBounds (width : Nat)
  | extension (operator : String)
  | concatWidth
  | noArray (operator : String)
  | unreadable (reason : String)
  deriving Repr, DecidableEq, Inhabited

/-- The wording of a cause. -/
def Cause.message : Cause → String
  | reading f => f.message
  | topLevelAtom t => "unexpected token " ++ Text.quoted t ++ " at top level"
  | unknownCommand n => "unsupported command " ++ Text.quoted n
  | declareFunShape => "malformed declare-fun"
  | declareConstShape => "malformed declare-const"
  | functionArguments => "functions with arguments are not supported"
  | declaredName => "malformed declaration name"
  | duplicate n => "duplicate declaration of " ++ Text.quoted n
  | unknownSort s => "unsupported sort " ++ s
  | sortWidth w => "unsupported bit-vector width " ++ w
  | assertShape => "malformed assert"
  | notBoolean t => "assertion is not boolean: " ++ t
  | emptyExpression => "empty expression"
  | undeclared n => "undeclared symbol " ++ Text.quoted n
  | radixLiteral t => "malformed literal " ++ Text.quoted t
  | literalShape t => "malformed literal " ++ t
  | literalWidth t => "unsupported literal width in " ++ t
  | literalSize v w => "literal " ++ toString v ++ " does not fit in " ++ toString w ++ " bits"
  | indexedHead h => "malformed indexed operator " ++ h
  | indexShape i h => "malformed index " ++ i ++ " in " ++ h
  | letShape => "malformed let"
  | bindingShape => "malformed let binding"
  | argumentCount o n =>
    "operator " ++ o ++ ": unexpected number of arguments (" ++ toString n ++ ")"
  | extractBounds w => "invalid extract bounds for " ++ toString w ++ "-bit operand"
  | extension o => "invalid " ++ o ++ " amount"
  | concatWidth => "concat result exceeds " ++ toString maxWidth ++ " bits"
  | noArray o => o ++ " on a non-array operand"
  | unreadable r => r

/-- A refused path file. Line 0 means that no line is to blame. -/
structure Refusal where
  file : String
  line : Nat
  cause : Cause
  deriving Repr, DecidableEq, Inhabited

/-- A refusal in one line. The reason why a file could not be read names it already. -/
def Refusal.message (r : Refusal) : String :=
  match r.cause with
  | .unreadable reason => reason
  | cause =>
    if r.line = 0 then r.file ++ ": " ++ cause.message
    else r.file ++ ":" ++ toString r.line ++ ": " ++ cause.message

end Pathwise.Path
