import Pathwise.Domain.Basic
import Pathwise.Path.Basic

/-!
# Evaluation

The value of a term under an assignment of numbers to symbols. Values are booleans and bit-vectors;
where an operator expects the other kind, a bit-vector counts as false, and a boolean as a
bit-vector of width 0. Arguments of different widths are compared by their numbers.

* **Assignments** give numbers of any size; a symbol takes them modulo its width. Inputs and memory
  symbols are assigned by name, elements of arrays by the name of their location.
* **Order**: conjunctions, disjunctions and implications stop as soon as their value is settled, and
  an if-then-else evaluates one branch only. All other arguments are evaluated from left to right.
* **Arrays** have no values. A select looks through the stores below it for one with the same index,
  and takes the assigned element if there is none.
-/

namespace Pathwise

/-- The value of a term. The number of a bit-vector is below `2 ^ width`. -/
inductive Value where
  | bool (value : Bool)
  | bits (value : Nat) (width : Nat)
  deriving Repr, DecidableEq, Inhabited

namespace Value

/-- The bit-vector of a given width with the low bits of a number. -/
def ofNat (n width : Nat) : Value :=
  bits (n % 2 ^ width) width

/-- The bit-vector of a given width that is congruent to an integer. -/
def ofInt (n : Int) (width : Nat) : Value :=
  bits (n % 2 ^ width).toNat width

/-- The truth of a value; a bit-vector is not true. -/
def isTrue : Value → Bool
  | bool b => b
  | bits _ _ => false

/-- The number of a value; a boolean has none. -/
def toNat : Value → Nat
  | bool _ => 0
  | bits n _ => n

/-- The width of a value; that of a boolean is 0. -/
def width : Value → Nat
  | bool _ => 0
  | bits _ w => w

/-- Whether the sign bit is set. -/
def isNegative (v : Value) : Bool :=
  v.width != 0 && v.toNat.testBit (v.width - 1)

/-- A value as a signed number. -/
def toInt (v : Value) : Int :=
  if v.isNegative then (v.toNat : Int) - 2 ^ v.width else v.toNat

/-- Equality as the language has it: booleans are equal to equal booleans, bit-vectors to
bit-vectors with the same number. -/
def same : Value → Value → Bool
  | bool a, bool b => a == b
  | bits a _, bits b _ => a == b
  | _, _ => false

/-- The number with which signed values are compared: the sign bit is flipped, so that the unsigned
order of the results is the signed order of the values. -/
def orderKey (v : Value) : Nat :=
  if v.width = 0 then v.toNat else v.toNat ^^^ 2 ^ (v.width - 1)

/-- A value for reports. -/
def text : Value → String
  | bool b => "bool:" ++ toString b
  | bits n w => "bv" ++ toString w ++ ":" ++ toString n

end Value

/-- Why a term has no value. -/
inductive EvalError where
  | unbound (name : String)
  | arrayValue (name : String)
  | unknownOperator (name : String)
  | storeValue
  | selectOver (term : String)
  | notBoolean (index : Nat)
  deriving Repr, DecidableEq, Inhabited

namespace EvalError

/-- Whether a symbol has no value. All other errors are about terms that are not supported. -/
def isUnbound : EvalError → Bool
  | unbound _ => true
  | _ => false

/-- The wording of an error. -/
def message : EvalError → String
  | unbound n => n ++ ": unbound symbol"
  | arrayValue n => "array " ++ n ++ " used as a value: unsupported expression"
  | unknownOperator n => "operator " ++ n ++ ": unsupported expression"
  | storeValue => "store used as a value: unsupported expression"
  | selectOver t => "select over " ++ t ++ ": unsupported expression"
  | notBoolean i => "constraint " ++ toString i ++ " is not boolean: unsupported expression"

end EvalError

/-- Numbers for symbols. -/
abbrev Assignment := String → Option Nat

namespace Term

/-! ### Operators on values -/

/-- A comparison of two values. -/
def compareValues (o : Op) (a b : Value) : Bool :=
  let (x, y) := if o.isSigned then (a.orderKey, b.orderKey) else (a.toNat, b.toNat)
  match o with
  | .ult | .slt => x < y
  | .ule | .sle => x ≤ y
  | .ugt | .sgt => y < x
  | .uge | .sge => y ≤ x
  | _ => false

/-- Whether all values are the same as the first. -/
def allSame : List Value → Bool
  | [] => true
  | v :: vs => vs.all v.same

/-- Whether no two values are the same. -/
def allDistinct : List Value → Bool
  | [] => true
  | v :: vs => vs.all (fun w => !v.same w) && allDistinct vs

/-- An operator of two operands on numbers, applied from left to right. -/
def foldNats (f : Nat → Nat → Nat) (v : Value) (vs : List Value) : Value :=
  .ofNat (vs.foldl (fun n w => f n w.toNat % 2 ^ v.width) v.toNat) v.width

/-- The amount of a shift below the width of what is shifted. -/
def shiftAmount? (width : Nat) (v : Value) : Option Nat :=
  if v.toNat < width then some v.toNat else none

/-- An operation on two bit-vectors, with the width of the first. Division by zero gives the
greatest number, or for signed division of a negative number one; the remainder is then the
dividend. -/
def transformPair (o : Op) (a b : Value) : Value :=
  let w := a.width
  match o with
  | .sub => .ofInt ((a.toNat : Int) - b.toNat) w
  | .udiv => .ofNat (if b.toNat = 0 then mask w else a.toNat / b.toNat) w
  | .urem => .ofNat (if b.toNat = 0 then a.toNat else a.toNat % b.toNat) w
  | .sdiv =>
    if b.toNat = 0 then .ofNat (if a.isNegative then 1 else mask w) w
    else .ofInt (a.toInt.tdiv b.toInt) w
  | .srem => if b.toNat = 0 then .ofNat a.toNat w else .ofInt (a.toInt.tmod b.toInt) w
  | .shl =>
    match shiftAmount? w b with
    | some n => .ofNat (a.toNat <<< n) w
    | none => .ofNat 0 w
  | .lshr =>
    match shiftAmount? w b with
    | some n => .ofNat (a.toNat >>> n) w
    | none => .ofNat 0 w
  | .ashr =>
    match shiftAmount? w b with
    | some n => .ofInt (a.toInt / 2 ^ n) w
    | none => .ofNat (if a.isNegative then mask w else 0) w
  | _ => a

/-- An operation on bit-vectors that computes new data. -/
def transformValues (o : Op) : List Value → Value
  | [] => .bits 0 0
  | v :: vs =>
    match o with
    | .bvNot => .ofNat (mask v.width - v.toNat) v.width
    | .bvNeg => .ofInt (-(v.toNat : Int)) v.width
    | .add => foldNats (· + ·) v vs
    | .mul => foldNats (· * ·) v vs
    | .bvAnd => foldNats (· &&& ·) v vs
    | .bvOr => foldNats (· ||| ·) v vs
    | .bvXor => foldNats (· ^^^ ·) v vs
    | _ =>
      match vs with
      | [] => v
      | w :: _ => transformPair o v w

/-- An operation that changes a width; the width of the result is given. -/
def structuralValues (o : Op) (indices : List Nat) (width : Nat) (vs : List Value) : Value :=
  match o, vs with
  | .extract, v :: _ => .ofNat (v.toNat >>> indices.tail.headD 0) width
  | .zeroExtend, v :: _ => .ofNat v.toNat width
  | .signExtend, v :: _ => .ofInt v.toInt width
  | .concat, vs => .ofNat (vs.foldl (fun n v => n <<< v.width ||| v.toNat) 0) width
  | _, _ => .bits 0 0

/-- An operator whose arguments are all evaluated. -/
def strictValue (o : Op) (indices : List Nat) (width : Nat) (vs : List Value) : Value :=
  match o with
  | .not => .bool !(vs.headD (.bool false)).isTrue
  | .eq => .bool (allSame vs)
  | .distinct => .bool (allDistinct vs)
  | _ =>
    match o.family, vs with
    | .compare, [a, b] => .bool (compareValues o a b)
    | .transform, vs => transformValues o vs
    | .structural, vs => structuralValues o indices width vs
    | _, _ => .bool false

/-! ### Terms -/

/-- The value that an assignment gives to a symbol. -/
def symbolValue (env : Assignment) (name : String) (width : Nat) : Except EvalError Value :=
  match env name with
  | some n => .ok (.ofNat n width)
  | none => .error (.unbound name)

mutual

/-- The value of a term. -/
def eval (env : Assignment) : Term → Except EvalError Value
  | truth b => .ok (.bool b)
  | literal n w => .ok (.ofNat n w)
  | input v => symbolValue env v.name v.width
  | cell v _ => symbolValue env v.name v.width
  | array v => .error (.arrayValue v.name)
  | apply (.unknown name _) _ _ => .error (.unknownOperator name)
  | apply (.access .write _) _ _ => .error .storeValue
  | apply (.access .read l) (a :: index :: _) _ => do
    let i ← eval env index
    evalElement env l.name i.toNat a
  | apply (.op .ite _) [c, t, e] _ => do
    if (← eval env c).isTrue then eval env t else eval env e
  | apply (.op .implies _) [a, b] _ => do
    if (← eval env a).isTrue then eval env b else return .bool true
  | apply (.op .and _) args _ => evalAll env args
  | apply (.op .or _) args _ => evalAny env args
  | apply h args w =>
    match h with
    | .op o indices => do return strictValue o indices w (← evalArgs env args)
    | h => .error (.unknownOperator h.name)

/-- The values of terms, from left to right. -/
def evalArgs (env : Assignment) : List Term → Except EvalError (List Value)
  | [] => .ok []
  | t :: ts => do
    let v ← eval env t
    let vs ← evalArgs env ts
    return v :: vs

/-- Whether all terms are true, up to the first that is not. -/
def evalAll (env : Assignment) : List Term → Except EvalError Value
  | [] => .ok (.bool true)
  | t :: ts => do
    if (← eval env t).isTrue then evalAll env ts else return .bool false

/-- Whether some term is true, up to the first that is. -/
def evalAny (env : Assignment) : List Term → Except EvalError Value
  | [] => .ok (.bool false)
  | t :: ts => do
    if (← eval env t).isTrue then return .bool true else evalAny env ts

/-- The element of an array term at an index. The element of the array itself is assigned under the
given name. -/
def evalElement (env : Assignment) (name : String) (index : Nat) :
    Term → Except EvalError Value
  | array v => symbolValue env name v.width
  | apply (.access .write _) [a, i, e] _ => do
    if (← eval env i).toNat = index then eval env e else evalElement env name index a
  | t => .error (.selectOver t.text)

end

end Term

namespace Constraint

/-- Whether a constraint holds under an assignment. -/
def holds (env : Assignment) (c : Constraint) : Except EvalError Bool := do
  match ← c.term.eval env with
  | .bool b => return b
  | .bits _ _ => .error (.notBoolean c.index)

/-- Whether all constraints hold under an assignment, up to the first that does not. -/
def allHold (env : Assignment) : List Constraint → Except EvalError Bool
  | [] => .ok true
  | c :: cs => do
    if ← c.holds env then allHold env cs else return false

end Constraint

end Pathwise
