import Pathwise.Term.Op
import Pathwise.Text.Numeral

/-!
# Terms

The expressions of a path: references to declared symbols, literals, and applications of operators.

* **Symbols** are inputs of the program, memory cells that the execution engine named by their
  address, and arrays.
* **Locations** are the places in memory that a path touches. A location is an address, or an offset
  from a symbolic base, together with its *epoch*: the how-manieth location of the path at that
  address it is, from 0.
* **Widths** are in bits. Booleans and arrays have width 0.
-/

namespace Pathwise

/-- What a symbol stands for. -/
inductive Role where
  | input
  | memory
  | array (indexWidth : Nat)
  deriving Repr, DecidableEq, Inhabited

/-- The name of a role. -/
def Role.name : Role → String
  | input => "input"
  | memory => "memory"
  | array _ => "array"

/-- The number of a role. -/
def Role.number : Role → Nat
  | input => 0
  | memory => 1
  | array _ => 2

/-- The width of an array's indices, 0 for what is no array. -/
def Role.indexWidth : Role → Nat
  | array w => w
  | _ => 0

/-- A declared symbol. The width of an array is that of its elements. -/
structure Variable where
  name : String
  width : Nat
  role : Role
  deriving Repr, DecidableEq, Inhabited

/-- A place in memory that a path touches. The base is the text of a symbolic address, empty for an
absolute one; the serial number is the one that the engine gave, or -1. -/
structure Location where
  name : String
  base : String
  address : Nat
  serial : Int
  epoch : Nat
  width : Nat
  deriving Repr, DecidableEq, Inhabited

/-- A location as `base+0xaddress#epoch`, without the base if it is absolute. -/
def Location.text (l : Location) : String :=
  let place := "0x" ++ Text.hex l.address ++ "#" ++ toString l.epoch
  if l.base = "" then place else l.base ++ "+" ++ place

/-- How memory is accessed. -/
inductive AccessKind where
  | read
  | write
  deriving Repr, DecidableEq, Inhabited

/-- The name of a kind of access. -/
def AccessKind.name : AccessKind → String
  | read => "read"
  | write => "write"

/-- The array operator that makes an access. -/
def AccessKind.op : AccessKind → Op
  | read => .select
  | write => .store

/-- What an application applies. Array accesses carry the location that they touch; an unknown
operator carries its name. Indices are those of an indexed operator. -/
inductive Head where
  | op (op : Op) (indices : List Nat)
  | access (kind : AccessKind) (location : Location)
  | unknown (name : String) (indices : List Nat)
  deriving Repr, DecidableEq, Inhabited

namespace Head

/-- The operator, if it is a known one. -/
def op? : Head → Option Op
  | op o _ => some o
  | access k _ => some k.op
  | unknown _ _ => none

/-- The name of what is applied. -/
def name : Head → String
  | op o _ => o.name
  | access k _ => k.op.name
  | unknown n _ => n

/-- The indices of an indexed operator. -/
def indices : Head → List Nat
  | op _ is => is
  | access _ _ => []
  | unknown _ is => is

/-- The location of an array access. -/
def location? : Head → Option Location
  | access _ l => some l
  | _ => none

/-- Whether a known operator with the given property is applied. -/
def opIs (p : Op → Bool) (h : Head) : Bool :=
  h.op?.any p

end Head

/-- An expression. The width of an application is computed when it is built. -/
inductive Term where
  | input (var : Variable)
  | cell (var : Variable) (location : Location)
  | array (var : Variable)
  | literal (value : Nat) (width : Nat)
  | truth (value : Bool)
  | apply (head : Head) (args : List Term) (width : Nat)
  deriving Repr, Inhabited

namespace Term

/-- The width of a term, 0 for booleans and arrays. -/
def width : Term → Nat
  | input v => v.width
  | cell v _ => v.width
  | array _ => 0
  | literal _ w => w
  | truth _ => 0
  | apply _ _ w => w

/-- A literal of a given width. What does not fit into the width is cut off. -/
def literalOf (value width : Nat) : Term :=
  literal (lowBits value width) width

/-- The canonical text of a literal of a given width. -/
def literalText (value width : Nat) : String :=
  "(_ bv" ++ toString value ++ " " ++ toString width ++ ")"

/-- How the head of an application is written. -/
def headText (h : Head) : String :=
  match h.indices with
  | [] => h.name
  | is => "(_ " ++ h.name ++ String.join (is.map fun i => " " ++ toString i) ++ ")"

mutual

/-- The canonical text of a term. -/
def text : Term → String
  | input v => v.name
  | cell v _ => v.name
  | array v => v.name
  | literal n w => literalText n w
  | truth b => if b then "true" else "false"
  | apply h args _ => "(" ++ headText h ++ argTexts args ++ ")"

/-- The canonical texts of arguments, each after a space. -/
def argTexts : List Term → String
  | [] => ""
  | t :: ts => " " ++ t.text ++ argTexts ts

end

/-- The operator at the root of a term, if it applies a known one. -/
def op? : Term → Option Op
  | apply h _ _ => h.op?
  | _ => none

/-- Whether a term applies the given operator. -/
def applies (o : Op) (t : Term) : Bool :=
  t.op? == some o

/-- The arguments of an application; other terms have none. -/
def args : Term → List Term
  | apply _ as _ => as
  | _ => []

/-- The value of a literal. -/
def literal? : Term → Option Nat
  | literal n _ => some n
  | _ => none

/-- The array at the bottom of a chain of stores. -/
def arrayOf? : Term → Option Variable
  | array v => some v
  | apply (.access .write _) (t :: _) _ => t.arrayOf?
  | _ => none

/-- Whether a term denotes an array. -/
def isArray (t : Term) : Bool :=
  t.arrayOf?.isSome

/-! ### Subterms -/

/-- A subterm with its surroundings: the head of the application that it is an argument of, and its
place among the arguments. The root has no surroundings. -/
structure Occurrence where
  term : Term
  parent : Option Head
  place : Nat
  deriving Repr, Inhabited

/-- Whether a subterm is the index of an array access. Address arithmetic in it belongs to the
location and is not a transformation of data. -/
def Occurrence.isAddress (o : Occurrence) : Bool :=
  o.place == 1 && o.parent.any (Head.opIs Op.isMemory)

mutual

/-- All subterms, an application before its arguments. -/
def occurrences (parent : Option Head) (place : Nat) : Term → List Occurrence
  | input v => [⟨input v, parent, place⟩]
  | cell v l => [⟨cell v l, parent, place⟩]
  | array v => [⟨array v, parent, place⟩]
  | literal n w => [⟨literal n w, parent, place⟩]
  | truth b => [⟨truth b, parent, place⟩]
  | apply h as w => ⟨apply h as w, parent, place⟩ :: argOccurrences h 0 as

/-- All subterms of arguments, the first of which has the given place. -/
def argOccurrences (h : Head) (place : Nat) : List Term → List Occurrence
  | [] => []
  | t :: ts => occurrences (some h) place t ++ argOccurrences h (place + 1) ts

end

mutual

/-- All subterms outside the indices of array accesses, an application before its arguments. -/
def dataOccurrences (parent : Option Head) (place : Nat) : Term → List Occurrence
  | input v => [⟨input v, parent, place⟩]
  | cell v l => [⟨cell v l, parent, place⟩]
  | array v => [⟨array v, parent, place⟩]
  | literal n w => [⟨literal n w, parent, place⟩]
  | truth b => [⟨truth b, parent, place⟩]
  | apply h as w => ⟨apply h as w, parent, place⟩ :: dataArgOccurrences h 0 as

/-- All subterms of arguments outside the indices of array accesses. -/
def dataArgOccurrences (h : Head) (place : Nat) : List Term → List Occurrence
  | [] => []
  | t :: ts =>
    (if h.opIs Op.isMemory && place == 1 then [] else dataOccurrences (some h) place t) ++
      dataArgOccurrences h (place + 1) ts

end

/-- All subterms of a term, with their surroundings. -/
def subterms (t : Term) : List Occurrence :=
  t.occurrences none 0

end Term

end Pathwise
