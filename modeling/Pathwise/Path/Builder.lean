import Pathwise.Path.Basic
import Pathwise.Path.Error

/-!
# Building a path

The commands of a path file, one after the other, extend a builder: the symbols declared so far,
the locations touched so far and the constraints asserted so far. Converting an expression is part
of that, because an array access in it may touch a new location.

* **Accesses**: a store always opens a new location; a select reads the location that the latest
  access to the same element of the same array had, and opens one if there was none.
* **Scopes**: a let binds the values of its definitions, converted in the scope outside it, all at
  once; of two definitions of one name the later counts.
* **Assertions** must be boolean, unless their operator is unknown. A conjunction is split into its
  parts.
-/

namespace Pathwise.Path

/-- An element of an array: the array, and the base and the address of the index. -/
structure Slot where
  array : String
  base : String
  address : Nat
  deriving Repr, DecidableEq, Inhabited

/-- What has been built so far. `cells` has the locations of memory symbols by name, and `latest`
the location of the latest access to each element, the newest first. -/
structure Builder where
  declared : List Variable
  memory : List Location
  cells : List (String × Location)
  latest : List (Slot × Location)
  constraints : List Constraint
  deriving Repr, Inhabited

namespace Builder

/-- The builder before the first command. -/
def empty : Builder :=
  ⟨[], [], [], [], []⟩

/-- The number of locations touched so far at an address. -/
def epoch (b : Builder) (base : String) (address : Nat) : Nat :=
  b.memory.countP fun l => l.base == base && l.address == address

/-- The symbol with a given name. -/
def symbol? (b : Builder) (name : String) : Option Variable :=
  b.declared.find? (·.name == name)

end Builder

/-- A step of building, which may refuse the file at a line. -/
abbrev Build := StateT Builder (Except (Nat × Cause))

/-- Refuses the file. -/
def refuse {α : Type} (line : Nat) (cause : Cause) : Build α :=
  throw (line, cause)

/-! ### Literals -/

/-- A literal in base 2 or 16 by its digits, each of which has `bits` bits. A sign counts as a
digit, and a negative value wraps around at the greatest width. -/
def radixLiteral? (base bits : Nat) (digits : List Char) : Option Term :=
  let width := digits.length * bits
  if width > maxWidth then none
  else (Text.signed? base digits).map fun n => .literal (n % 2 ^ maxWidth).toNat width

/-- A literal `(_ bvN W)`, given all of its expression. -/
def indexedLiteral (node : SExpr) : Except Cause Term :=
  match node.items with
  | [_, .atom _ name, w] =>
    match Text.after? "bv".toList name.toList with
    | none => .error (.literalShape node.text)
    | some digits =>
      match (Text.nat32? w.atomText).filter fun n => 0 < n && n ≤ maxWidth with
      | none => .error (.literalWidth node.text)
      | some width =>
        match Text.signed? 10 digits with
        | none => .error (.literalShape node.text)
        | some n =>
          if n < 0 then .error (.literalShape node.text)
          else if 2 ^ width ≤ n then .error (.literalSize n width)
          else .ok (.literal n.toNat width)
  | _ => .error (.literalShape node.text)

/-! ### Symbols -/

/-- The definitions that are in scope, the innermost first. -/
abbrev Scope := List (String × Term)

/-- The term for a declared symbol. -/
def Builder.symbolTerm? (b : Builder) (name : String) : Option Term :=
  (b.symbol? name).map fun v =>
    match v.role with
    | .input => .input v
    | .array _ => .array v
    | .memory =>
      match b.cells.lookup name with
      | some l => .cell v l
      | none => .input v

/-- The term for an atom. -/
def atomTerm (scope : Scope) (line : Nat) (text : String) : Build Term := do
  if text = "true" then return .truth true
  if text = "false" then return .truth false
  match text.toList with
  | '#' :: 'x' :: digits =>
    match radixLiteral? 16 4 digits with
    | some t => return t
    | none => refuse line (.radixLiteral text)
  | '#' :: 'b' :: digits =>
    match radixLiteral? 2 1 digits with
    | some t => return t
    | none => refuse line (.radixLiteral text)
  | _ =>
    match scope.lookup text with
    | some t => return t
    | none =>
      match (← get).symbolTerm? text with
      | some t => return t
      | none => refuse line (.undeclared text)

/-! ### Array accesses -/

/-- The value of a literal that fits an address. -/
def wordLiteral? (t : Term) : Option Nat :=
  t.literal?.filter (· < 2 ^ 64)

/-- The symbolic base and the constant offset of an index. An absolute address has no base; an index
that is no sum of a base and a constant is all base. -/
def addressOf (index : Term) : String × Nat :=
  match index with
  | .apply (.op .add _) [a, b] _ =>
    match wordLiteral? b, wordLiteral? a with
    | some n, _ => (a.text, n)
    | none, some n => (b.text, n)
    | none, none => (index.text, 0)
  | t =>
    match wordLiteral? t with
    | some n => ("", n)
    | none => (t.text, 0)

/-- The location that an access to an array touches. -/
def touch (array : Variable) (index : Term) (kind : AccessKind) : Build Location := do
  let b ← get
  let (base, address) := addressOf index
  let slot : Slot := ⟨array.name, base, address⟩
  match kind, b.latest.lookup slot with
  | .read, some l => return l
  | _, _ =>
    let l : Location :=
      { name := array.name ++ "[" ++ index.text ++ "]", base, address, serial := -1,
        epoch := b.epoch base address, width := array.width }
    set { b with memory := b.memory ++ [l], latest := (slot, l) :: b.latest }
    return l

/-! ### Applications -/

/-- The width of the first of some arguments. -/
def firstWidth : List Term → Nat
  | [] => 0
  | t :: _ => t.width

/-- The width of what an operator other than an array access gives. -/
def resultWidth (o : Op) (indices : List Nat) (args : List Term) : Except Cause Nat :=
  match o with
  | .ite => .ok (firstWidth args.tail)
  | .extract =>
    match indices with
    | [hi, lo] =>
      if hi < lo ∨ firstWidth args ≤ hi then .error (.extractBounds (firstWidth args))
      else .ok (hi - lo + 1)
    | _ => .error (.extractBounds (firstWidth args))
  | .zeroExtend | .signExtend =>
    match indices with
    | [n] =>
      if maxWidth < firstWidth args + n then .error (.extension o.name)
      else .ok (firstWidth args + n)
    | _ => .error (.extension o.name)
  | .concat =>
    let w := args.foldl (fun n t => n + t.width) 0
    if maxWidth < w then .error .concatWidth else .ok w
  | _ => .ok (if o.isTransform then firstWidth args else 0)

/-- Applies a select or a store to its arguments. -/
def applyAccess (line : Nat) (kind : AccessKind) (args : List Term) : Build Term :=
  match args with
  | a :: index :: _ =>
    match a.arrayOf? with
    | none => refuse line (.noArray kind.op.name)
    | some array => do
      let l ← touch array index kind
      return .apply (.access kind l) args (if kind = .read then array.width else 0)
  | _ => refuse line (.noArray kind.op.name)

/-- Applies a known operator to its arguments. -/
def applyOp (line : Nat) (o : Op) (indices : List Nat) (args : List Term) : Build Term := do
  if !o.arity.allows args.length then refuse line (.argumentCount o.name args.length)
  match o with
  | .select => applyAccess line .read args
  | .store => applyAccess line .write args
  | _ =>
    match resultWidth o indices args with
    | .ok w => return .apply (.op o indices) args w
    | .error c => refuse line c

/-- Applies an unknown operator: the result is as wide as the first argument. -/
def applyUnknown (name : String) (indices : List Nat) (args : List Term) : Term :=
  .apply (.unknown name indices) args (firstWidth args)

/-- Reads the indices of an indexed operator with the given head. -/
def indexList (head : SExpr) : List SExpr → Except Cause (List Nat)
  | [] => .ok []
  | i :: is => do
    match Text.nat32? i.atomText with
    | none => .error (.indexShape i.text head.text)
    | some n => return n :: (← indexList head is)

/-- The name and the indices in the head `(_ name index ...)` of an application. -/
def indexedHead (head : SExpr) : Except Cause (String × List Nat) :=
  match head.items with
  | .atom _ mark :: .atom _ name :: indices =>
    if mark = "_" then (indexList head indices).map fun is => (name, is)
    else .error (.indexedHead head.text)
  | _ => .error (.indexedHead head.text)

/-- The operator that an indexed head applies. All indexed operators change widths. -/
def indexedOp? (name : String) : Option Op :=
  (Op.ofName? name).filter fun o => o.isStructural && o != .concat

/-- Makes a cause a refusal at a line. -/
def located {α : Type} (line : Nat) : Except Cause α → Build α
  | .ok a => return a
  | .error c => refuse line c

mutual

/-- The term for an expression. -/
def convert (scope : Scope) : SExpr → Build Term
  | .atom line text => atomTerm scope line text
  | .list line [] => refuse line .emptyExpression
  | .list line (.list headLine headItems :: rest) => do
    let (name, indices) ← located line (indexedHead (.list headLine headItems))
    let args ← convertAll scope rest
    match indexedOp? name with
    | some o => applyOp line o indices args
    | none => return applyUnknown name indices args
  | .list line (.atom headLine head :: rest) =>
    if head = "_" then located line (indexedLiteral (.list line (.atom headLine head :: rest)))
    else if head = "let" then
      match rest with
      | [.list _ definitions, body] => do
        let inner ← define scope definitions
        convert (inner ++ scope) body
      | _ => refuse line .letShape
    else do
      let args ← convertAll scope rest
      match Op.ofName? head with
      | some o => applyOp line o [] args
      | none => return applyUnknown head [] args

/-- The terms for expressions, from left to right. -/
def convertAll (scope : Scope) : List SExpr → Build (List Term)
  | [] => return []
  | e :: es => do
    let t ← convert scope e
    let ts ← convertAll scope es
    return t :: ts

/-- The definitions of a let, the last of them first. -/
def define (scope : Scope) : List SExpr → Build Scope
  | [] => return []
  | .list _ [.atom _ name, e] :: definitions => do
    let t ← convert scope e
    let later ← define scope definitions
    return later ++ [(name, t)]
  | d :: _ => refuse d.line .bindingShape

end

/-! ### Declarations -/

/-- The width of a sort `(_ BitVec w)`. -/
def sortWidth (sort : SExpr) : Build Nat :=
  match sort with
  | .list line [.atom _ mark, kind, w] =>
    if mark = "_" ∧ kind.atomText = "BitVec" then
      match (Text.nat32? w.atomText).filter fun n => 0 < n && n ≤ maxWidth with
      | some n => return n
      | none => refuse line (.sortWidth w.text)
    else refuse line (.unknownSort sort.text)
  | _ => refuse sort.line (.unknownSort sort.text)

/-- The address and the serial number in the name `mem_address_serial_width` of a memory symbol. -/
def cellName? (name : String) : Option (Nat × Nat) :=
  match name.toList.splitOn '_' with
  | [tag, address, serial, width] =>
    if tag = "mem".toList ∧ (Text.digits? 10 width).isSome then
      match Text.digitsBelow? 16 (2 ^ 64) address, Text.nat63? serial with
      | some a, some s => some (a, s)
      | _, _ => none
    else none
  | _ => none

/-- Declares a symbol of bit-vector sort: a memory symbol or an input, by its name. -/
def declareWord (name : String) (width : Nat) : Build Unit := do
  let b ← get
  match cellName? name with
  | some (address, serial) =>
    let l : Location :=
      { name, base := "", address, serial, epoch := b.epoch "" address, width }
    let v : Variable := ⟨name, width, .memory⟩
    set { b with
      declared := b.declared ++ [v], memory := b.memory ++ [l], cells := (name, l) :: b.cells }
  | none =>
    let v : Variable := ⟨name, width, .input⟩
    set { b with declared := b.declared ++ [v] }

/-- Declares an array. -/
def declareArray (name : String) (indexWidth width : Nat) : Build Unit :=
  modify fun b => { b with declared := b.declared ++ [⟨name, width, .array indexWidth⟩] }

/-- Declares a symbol of a given sort. -/
def declare (line : Nat) (name sort : SExpr) : Build Unit := do
  match name with
  | .list _ _ => refuse line .declaredName
  | .atom _ name =>
    if ((← get).symbol? name).isSome then refuse line (.duplicate name)
    match sort with
    | .list _ [.atom _ "Array", index, element] =>
      let indexWidth ← sortWidth index
      let width ← sortWidth element
      declareArray name indexWidth width
    | _ => declareWord name (← sortWidth sort)

/-! ### Assertions and commands -/

/-- Adds a constraint. -/
def addConstraint (t : Term) : Build Unit :=
  modify fun b => { b with constraints := b.constraints ++ [⟨b.constraints.length, t⟩] }

mutual

/-- The conjuncts of a term. -/
def conjuncts : Term → List Term
  | .apply (.op .and _) args _ => conjunctsAll args
  | t => [t]

/-- The conjuncts of terms. -/
def conjunctsAll : List Term → List Term
  | [] => []
  | t :: ts => conjuncts t ++ conjunctsAll ts

end

/-- Asserts the conjuncts of a term. -/
def assert (line : Nat) (t : Term) : Build Unit := do
  match t with
  | .apply (.unknown _ _) _ _ => addConstraint t
  | _ =>
    if t.width ≠ 0 ∨ t.isArray then refuse line (.notBoolean t.text)
    (conjuncts t).forM addConstraint

/-- The commands that say nothing about the path. -/
def ignoredCommands : List String :=
  ["set-logic", "set-info", "set-option", "check-sat", "get-model", "get-value", "push", "pop",
    "exit"]

/-- Carries out a command. -/
def command (node : SExpr) : Build Unit :=
  match node with
  | .atom line text => refuse line (.topLevelAtom text)
  | .list line items =>
    if node.head = "declare-fun" then
      match items with
      | [_, name, .list _ [], sort] => declare line name sort
      | [_, _, _, _] => refuse line .functionArguments
      | _ => refuse line .declareFunShape
    else if node.head = "declare-const" then
      match items with
      | [_, name, sort] => declare line name sort
      | _ => refuse line .declareConstShape
    else if node.head = "assert" then
      match items with
      | [_, e] => do assert line (← convert [] e)
      | _ => refuse line .assertShape
    else if ignoredCommands.contains node.head then return ()
    else refuse line (.unknownCommand node.head)

/-- Carries out commands, one after the other. -/
def commands : List SExpr → Build Unit
  | [] => return ()
  | e :: es => do
    command e
    commands es

end Pathwise.Path
