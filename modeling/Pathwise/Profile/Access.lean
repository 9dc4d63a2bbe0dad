import Pathwise.Path.Basic

/-!
# Memory accesses

The accesses that constraints make to memory, in their order. Within a constraint each access of one
kind to one location counts once. A memory symbol on the left of an equation at the root is written;
all other memory symbols are read.

What a program calls its memory regions and where it puts them should not matter, so accesses are
described by the number of their base, in the order in which bases first occur, and by the distance
to the lowest address that is accessed relative to the same base.
-/

namespace Pathwise

/-- An access as comparisons see it. The base is -1 for absolute addresses. -/
structure Access where
  kind : AccessKind
  base : Int
  address : Nat
  offset : Nat
  epoch : Int
  deriving Repr, DecidableEq, Inhabited

/-- Which position of an access is compared. -/
inductive AddressPolicy where
  | relative
  | absolute
  deriving Repr, DecidableEq, Inhabited

namespace AddressPolicy

/-- The name of a policy. -/
def name : AddressPolicy → String
  | relative => "relative"
  | absolute => "absolute"

/-- The policy with a given name. -/
def ofName? : String → Option AddressPolicy
  | "relative" => some relative
  | "absolute" => some absolute
  | _ => none

end AddressPolicy

namespace Access

/-- What has to be the same in two accesses for them to match. -/
structure Key where
  kind : AccessKind
  base : Int
  position : Nat
  epoch : Int
  deriving Repr, DecidableEq, Inhabited

/-- The position of an access under a policy. -/
def position (a : Access) : AddressPolicy → Nat
  | .relative => a.offset
  | .absolute => a.address

/-- The key of an access under a policy. -/
def key (policy : AddressPolicy) (a : Access) : Key :=
  ⟨a.kind, a.base, a.position policy, a.epoch⟩

/-- An access for reports. -/
def text (a : Access) : String :=
  let base := if a.base ≥ 0 then "b" ++ toString a.base else "abs"
  a.kind.name ++ " " ++ base ++ "+" ++ toString a.offset ++ "#" ++ toString a.epoch

end Access

namespace Term

/-- A location that is accessed in some way. -/
abbrev Touch := Location × AccessKind

/-- The access that a subterm makes by itself. -/
def touch? : Term → Option Touch
  | cell _ l => some (l, .read)
  | apply (.access kind l) _ _ => some (l, kind)
  | _ => none

/-- All accesses in terms, in the order of the subterms. -/
def argTouches (ts : List Term) : List Touch :=
  ts.flatMap fun t => t.subterms.filterMap (·.term.touch?)

/-- All accesses of a constraint with this term, in the order of its subterms. -/
def touches : Term → List Touch
  | apply (.op .eq _) (cell _ l :: ts) _ => (l, .write) :: argTouches ts
  | t => t.subterms.filterMap (·.term.touch?)

end Term

/-- Drops all members of a list but the first of equal ones. -/
def firsts {α : Type} [DecidableEq α] (xs : List α) : List α :=
  xs.foldl (fun seen x => if x ∈ seen then seen else seen ++ [x]) []

namespace Access

/-- The symbolic bases of accesses, in the order of their first occurrence. -/
def bases (touches : List Term.Touch) : List String :=
  firsts ((touches.map (·.1.base)).filter (· ≠ ""))

/-- The number of a base; that of absolute addresses is -1. -/
def baseNumber (bases : List String) (base : String) : Int :=
  if base = "" then -1 else bases.idxOf base

/-- The lowest address that is accessed relative to a base. -/
def lowest (touches : List Term.Touch) (base : String) : Nat :=
  ((touches.filter (·.1.base == base)).map (·.1.address)).min?.getD 0

/-- Describes accesses by base, offset and epoch. -/
def describe (touches : List Term.Touch) : List Access :=
  let names := bases touches
  touches.map fun (l, kind) =>
    { kind
      base := baseNumber names l.base
      address := l.address
      offset := l.address - lowest touches l.base
      epoch := l.epoch }

/-- The accesses that constraints make. -/
def ofConstraints (cs : List Constraint) : List Access :=
  describe (cs.flatMap fun c => firsts c.term.touches)

end Access

end Pathwise
