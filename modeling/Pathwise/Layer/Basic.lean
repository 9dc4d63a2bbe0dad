import Pathwise.Path.Basic
import Pathwise.Text.Quoted

/-!
# Layers

Paths are compared in three layers. Each constraint belongs to one or two of them:

* **memory**, if it touches memory;
* **transform**, if it computes with data, address arithmetic aside;
* **control flow**, if it does neither, and so only says which inputs take the path.
-/

namespace Pathwise

/-! ### Names

Layers and verdicts are chosen by name. A name that is not known is reported with what it should
have named. -/

/-- A name that is not known, and what it should have named. -/
structure UnknownName where
  kind : String
  name : String
  deriving Repr, DecidableEq, Inhabited

/-- The wording of the error. -/
def UnknownName.message (e : UnknownName) : String :=
  "unknown " ++ e.kind ++ " " ++ Text.quoted e.name

/-- The first of some values that has a name. -/
def findNamed {α : Type} (kind : String) (values : List α) (nameOf : α → String) (name : String) :
    Except UnknownName α :=
  match values.find? (nameOf · == name) with
  | some a => .ok a
  | none => .error ⟨kind, name⟩

/-! ### Layers -/

/-- A layer of the comparison. -/
inductive Layer where
  | controlFlow
  | memory
  | transform
  deriving Repr, DecidableEq, Inhabited

namespace Layer

/-- All layers, in the order in which they are compared. -/
def all : List Layer :=
  [controlFlow, memory, transform]

/-- The name of a layer. -/
def name : Layer → String
  | controlFlow => "control_flow"
  | memory => "memory"
  | transform => "transform"

/-- The layer with a given name. -/
def ofName (s : String) : Except UnknownName Layer :=
  findNamed "layer" all name s

end Layer

/-- Something for each layer. -/
structure Layered (α : Type) where
  controlFlow : α
  memory : α
  transform : α
  deriving Repr, DecidableEq, Inhabited

namespace Layered

variable {α β : Type}

/-- What is there for a layer. -/
def get (x : Layered α) : Layer → α
  | .controlFlow => x.controlFlow
  | .memory => x.memory
  | .transform => x.transform

/-- Something for each layer, by a function of the layer. -/
def ofFn (f : Layer → α) : Layered α :=
  ⟨f .controlFlow, f .memory, f .transform⟩

/-- Applies a function at each layer. -/
def map (f : α → β) (x : Layered α) : Layered β :=
  ⟨f x.controlFlow, f x.memory, f x.transform⟩

/-- What is there for the layers, in their order. -/
def toList (x : Layered α) : List α :=
  [x.controlFlow, x.memory, x.transform]

end Layered

/-- A set of layers. -/
abbrev LayerSet := Layered Bool

namespace LayerSet

/-- The empty set. -/
def empty : LayerSet :=
  ⟨false, false, false⟩

/-- The set whose members are given by the low three bits of a number. -/
def ofBits (n : Nat) : LayerSet :=
  ⟨n.testBit 0, n.testBit 1, n.testBit 2⟩

/-- Adds a layer. -/
def insert (s : LayerSet) : Layer → LayerSet
  | .controlFlow => { s with controlFlow := true }
  | .memory => { s with memory := true }
  | .transform => { s with transform := true }

/-- The names of the layers with a bar between them. -/
def text (s : LayerSet) : String :=
  match Layer.all.filter s.get with
  | [] => "none"
  | ls => String.intercalate "|" (ls.map Layer.name)

end LayerSet

namespace Term

/-- Whether a subterm touches memory by itself. -/
def touchesMemory : Term → Bool
  | cell _ _ => true
  | array _ => true
  | apply h _ _ => h.opIs Op.isMemory
  | _ => false

/-- Whether a subterm computes with data by itself. -/
def transformsData : Term → Bool
  | apply h _ _ => h.opIs Op.isTransform
  | _ => false

/-- Whether a subterm applies an operator that is not known. -/
def isUnknown : Term → Bool
  | apply (.unknown _ _) _ _ => true
  | _ => false

/-- The subterms that are not part of an address. -/
def dataTerms (t : Term) : List Term :=
  (t.dataOccurrences none 0).map (·.term)

/-- The layers of a constraint with this term. -/
def layers (t : Term) : LayerSet :=
  let memory := t.dataTerms.any touchesMemory
  let transform := t.dataTerms.any transformsData
  ⟨!memory && !transform, memory, transform⟩

/-- Whether an unknown operator occurs anywhere in a term. -/
def hasUnknown (t : Term) : Bool :=
  t.subterms.any (·.term.isUnknown)

end Term

namespace Path

/-- The constraints of a path that belong to a layer. -/
def bucket (p : Path) (l : Layer) : List Constraint :=
  p.constraints.filter (·.term.layers.get l)

/-- The indices of the constraints in which unknown operators occur. -/
def unclassified (p : Path) : List Nat :=
  (p.constraints.filter (·.term.hasUnknown)).map (·.index)

end Path

end Pathwise
