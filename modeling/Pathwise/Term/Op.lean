/-!
# Operators

The operators of the path language: a part of the SMT-LIB logic of bit-vectors and arrays. They come
in five families, and the number of an operator reflects them: each family lies between two numbers
that no operator has. The numbers order operators; number 0 stands for an unknown operator.
-/

namespace Pathwise

/-- The known operators. -/
inductive Op where
  | eq | distinct | ult | ule | ugt | uge | slt | sle | sgt | sge
  | add | sub | mul | udiv | sdiv | urem | srem | shl | lshr | ashr
  | bvAnd | bvOr | bvXor | bvNot | bvNeg
  | extract | zeroExtend | signExtend | concat
  | not | and | or | implies | ite
  | select | store
  deriving Repr, DecidableEq, Inhabited

namespace Op

/-- The families of operators: comparisons, arithmetic and bitwise operations on data, changes of
width, boolean connectives, and array accesses. -/
inductive Family where
  | compare | transform | structural | logic | memory
  deriving Repr, DecidableEq, Inhabited

/-- All operators, in the order of their numbers. -/
def all : List Op :=
  [eq, distinct, ult, ule, ugt, uge, slt, sle, sgt, sge,
    add, sub, mul, udiv, sdiv, urem, srem, shl, lshr, ashr, bvAnd, bvOr, bvXor, bvNot, bvNeg,
    extract, zeroExtend, signExtend, concat, not, and, or, implies, ite, select, store]

/-- The name of an operator in the path language. -/
def name : Op → String
  | eq => "=" | distinct => "distinct"
  | ult => "bvult" | ule => "bvule" | ugt => "bvugt" | uge => "bvuge"
  | slt => "bvslt" | sle => "bvsle" | sgt => "bvsgt" | sge => "bvsge"
  | add => "bvadd" | sub => "bvsub" | mul => "bvmul" | udiv => "bvudiv" | sdiv => "bvsdiv"
  | urem => "bvurem" | srem => "bvsrem" | shl => "bvshl" | lshr => "bvlshr" | ashr => "bvashr"
  | bvAnd => "bvand" | bvOr => "bvor" | bvXor => "bvxor" | bvNot => "bvnot" | bvNeg => "bvneg"
  | extract => "extract" | zeroExtend => "zero_extend" | signExtend => "sign_extend"
  | concat => "concat"
  | not => "not" | and => "and" | or => "or" | implies => "=>" | ite => "ite"
  | select => "select" | store => "store"

/-- The operator with a given name. -/
def ofName? (s : String) : Option Op :=
  all.find? (·.name == s)

/-- The number of an operator. -/
def number : Op → Nat
  | eq => 2 | distinct => 3 | ult => 4 | ule => 5 | ugt => 6 | uge => 7
  | slt => 8 | sle => 9 | sgt => 10 | sge => 11
  | add => 14 | sub => 15 | mul => 16 | udiv => 17 | sdiv => 18 | urem => 19 | srem => 20
  | shl => 21 | lshr => 22 | ashr => 23
  | bvAnd => 24 | bvOr => 25 | bvXor => 26 | bvNot => 27 | bvNeg => 28
  | extract => 31 | zeroExtend => 32 | signExtend => 33 | concat => 34
  | not => 37 | and => 38 | or => 39 | implies => 40 | ite => 41
  | select => 44 | store => 45

/-- The family of an operator. -/
def family : Op → Family
  | eq | distinct | ult | ule | ugt | uge | slt | sle | sgt | sge => .compare
  | add | sub | mul | udiv | sdiv | urem | srem | shl | lshr | ashr
  | bvAnd | bvOr | bvXor | bvNot | bvNeg => .transform
  | extract | zeroExtend | signExtend | concat => .structural
  | not | and | or | implies | ite => .logic
  | select | store => .memory

/-- Whether an operator compares two values. -/
def isCompare (o : Op) : Bool := o.family == .compare

/-- Whether an operator computes new data. -/
def isTransform (o : Op) : Bool := o.family == .transform

/-- Whether an operator changes a width. -/
def isStructural (o : Op) : Bool := o.family == .structural

/-- Whether an operator is a boolean connective. -/
def isLogic (o : Op) : Bool := o.family == .logic

/-- Whether an operator accesses an array. -/
def isMemory (o : Op) : Bool := o.family == .memory

/-- Whether an operator compares values as signed numbers. -/
def isSigned : Op → Bool
  | slt | sle | sgt | sge => true
  | _ => false

/-- The comparison that holds exactly when the given one does not. -/
def negate? : Op → Option Op
  | eq => some distinct
  | distinct => some eq
  | ult => some uge
  | ule => some ugt
  | ugt => some ule
  | uge => some ult
  | slt => some sge
  | sle => some sgt
  | sgt => some sle
  | sge => some slt
  | _ => none

/-- The comparison that says the same of the exchanged operands. -/
def flip : Op → Op
  | ult => ugt
  | ule => uge
  | ugt => ult
  | uge => ule
  | slt => sgt
  | sle => sge
  | sgt => slt
  | sge => sle
  | o => o

/-- How many arguments an operator takes: at least `least`, and at most `most` if that is given. -/
structure Arity where
  least : Nat
  most : Option Nat
  deriving Repr, DecidableEq

/-- Whether a number of arguments is allowed. -/
def Arity.allows (a : Arity) (n : Nat) : Bool :=
  a.least ≤ n && a.most.all (n ≤ ·)

/-- The arity of an operator. -/
def arity : Op → Arity
  | eq | distinct | add | mul | bvAnd | bvOr | bvXor | concat => ⟨2, none⟩
  | and | or => ⟨1, none⟩
  | bvNot | bvNeg | not | extract | zeroExtend | signExtend => ⟨1, some 1⟩
  | ite | store => ⟨3, some 3⟩
  | _ => ⟨2, some 2⟩

/-- What is shown for an operator number: the name, or the number where there is no operator. -/
def shownNumber (n : Int) : String :=
  if n = 0 then "unknown"
  else
    match all.find? fun o => (o.number : Int) = n with
    | some o => o.name
    | none => "Op<" ++ toString n ++ ">"

end Op

end Pathwise
