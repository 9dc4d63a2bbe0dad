import Pathwise.Word

/-!
# Domains

The values that an input can have on a path: one or two intervals of unsigned numbers, less some
points inside them. Domains that are inferred from bounds have a normal form: intervals ascend with
a gap between them, excluded points ascend, and each of them lies strictly inside an interval.
-/

namespace Pathwise

/-- The numbers from `lo` to `hi`, both included. -/
structure Interval where
  lo : Nat
  hi : Nat
  deriving Repr, DecidableEq, Inhabited

/-- A set of numbers below `2 ^ width`: those in an interval that are not excluded. -/
structure Domain where
  width : Nat
  ranges : List Interval
  excluded : List Nat
  deriving Repr, DecidableEq, Inhabited

namespace Interval

/-- Whether a number lies in an interval. -/
def contains (r : Interval) (x : Nat) : Bool :=
  r.lo ≤ x && x ≤ r.hi

/-- An interval between brackets. -/
def text (r : Interval) : String :=
  "[" ++ toString r.lo ++ ", " ++ toString r.hi ++ "]"

/-- The numbers at the ends of an interval, those next to them inside it, and those next to them
outside it that have at most the given width. -/
def boundaries (width : Nat) (r : Interval) : List Nat :=
  [r.lo, r.hi] ++ (if r.lo < r.hi then [r.lo + 1, r.hi - 1] else []) ++
    (if r.lo = 0 then [] else [r.lo - 1]) ++ (if r.hi = mask width then [] else [r.hi + 1])

end Interval

namespace Domain

/-- All numbers of a width. -/
def full (width : Nat) : Domain :=
  ⟨width, [⟨0, mask width⟩], []⟩

/-- Whether no number is in a domain. -/
def isEmpty (d : Domain) : Bool :=
  d.ranges.isEmpty

/-- Whether all numbers of its width are in a domain. -/
def isFull (d : Domain) : Bool :=
  d == full d.width

/-- Whether a number is in a domain. -/
def contains (d : Domain) (x : Nat) : Bool :=
  !d.excluded.contains x && d.ranges.any (·.contains x)

/-- A domain as the union of its intervals less its excluded points. -/
def text (d : Domain) : String :=
  if d.ranges.isEmpty then "∅"
  else
    let union := String.intercalate " ∪ " (d.ranges.map Interval.text)
    if d.excluded.isEmpty then union
    else union ++ " \\ \x7b" ++ String.intercalate ", " (d.excluded.map toString) ++ "\x7d"

/-- Numbers at which the membership of a domain changes, or is about to. -/
def boundaries (d : Domain) : List Nat :=
  d.ranges.flatMap (·.boundaries d.width) ++ d.excluded

end Domain

end Pathwise
