import Pathwise.Domain.Basic
import Pathwise.Term.Basic

/-!
# Bounds

How a domain is inferred. A *bound* is a comparison of an input with a literal, on either side and
under any number of negations. The input may be extended by zeros or by its sign, or extracted
whole. A comparison of anything else says nothing about a single input and is passed over.

* `Bound.ofTerm?` recognises a bound.
* `Limits` collects bounds: an interval of unsigned numbers, one of signed numbers, and points that
  are excluded.
* `Limits.domain` intersects the two intervals and puts the result into normal form.
-/

namespace Pathwise

/-- How an input is widened before it is compared. -/
inductive Widening where
  | none
  | zero
  | sign
  deriving Repr, DecidableEq, Inhabited

/-- A comparison of an input, on the left, with a literal of a given width, on the right. -/
structure Bound where
  var : Variable
  widening : Widening
  op : Op
  value : Nat
  width : Nat
  deriving Repr, DecidableEq, Inhabited

/-- The value of a bit-vector of a given width as a signed number. -/
def signedValue (value width : Nat) : Int :=
  if value < 2 ^ (width - 1) then value else (value : Int) - 2 ^ width

namespace Bound

/-- The input that a term is, and how it is widened. -/
def subject? : Term → Option (Variable × Widening)
  | .input v => some (v, .none)
  | .apply (.op .zeroExtend [n]) [.input v] _ => some (v, if n = 0 then .none else .zero)
  | .apply (.op .signExtend [n]) [.input v] _ => some (v, if n = 0 then .none else .sign)
  | .apply (.op .extract [hi, lo]) [.input v] _ =>
    if lo = 0 ∧ hi + 1 = v.width then some (v, .none) else none
  | _ => none

/-- The bound that compares a subject on the left with a literal on the right. -/
def direct? (op : Op) (left right : Term) : Option Bound :=
  match subject? left, right with
  | some (v, e), .literal n w => some ⟨v, e, op, n, w⟩
  | _, _ => none

/-- The bound that a comparison of two terms is, whichever side the literal is on. -/
def compare? (op : Op) (left right : Term) : Option Bound :=
  (direct? op left right).or (direct? op.flip right left)

/-- The bound that a term is, or that its negation is. -/
def ofTerm? (negated : Bool) : Term → Option Bound
  | .apply (.op .not _) (t :: _) _ => ofTerm? (!negated) t
  | .apply (.op o _) [a, b] _ =>
    if o.isCompare then compare? (if negated then o.negate?.getD o else o) a b else none
  | _ => none

end Bound

/-- What bounds say about one input: its value lies between `ulo` and `uhi` as an unsigned number
and between `slo` and `shi` as a signed number, and is none of the excluded numbers. -/
structure Limits where
  width : Nat
  ulo : Int
  uhi : Int
  slo : Int
  shi : Int
  excluded : List Int
  deriving Repr, DecidableEq, Inhabited

namespace Limits

/-- The limits that the width alone sets. -/
def start (width : Nat) : Limits where
  width
  ulo := 0
  uhi := 2 ^ width - 1
  slo := -(2 ^ width / 2)
  shi := 2 ^ width / 2 - 1
  excluded := []

/-- Adds a comparison of the value as an unsigned number. -/
def unsigned (l : Limits) (op : Op) (c : Int) : Limits :=
  match op with
  | .ult | .slt => { l with uhi := min l.uhi (c - 1) }
  | .ule | .sle => { l with uhi := min l.uhi c }
  | .ugt | .sgt => { l with ulo := max l.ulo (c + 1) }
  | .uge | .sge => { l with ulo := max l.ulo c }
  | .eq => { l with ulo := max l.ulo c, uhi := min l.uhi c }
  | .distinct => { l with excluded := l.excluded ++ [c] }
  | _ => l

/-- The unsigned number with the same bits as a signed one. -/
def toUnsigned (l : Limits) (c : Int) : Int :=
  if 0 ≤ c then c else c + 2 ^ l.width

/-- Adds a comparison of the value as a signed number. -/
def signed (l : Limits) (op : Op) (c : Int) : Limits :=
  match op with
  | .slt => { l with shi := min l.shi (c - 1) }
  | .sle => { l with shi := min l.shi c }
  | .sgt => { l with slo := max l.slo (c + 1) }
  | .sge => { l with slo := max l.slo c }
  | .eq => { l with slo := max l.slo c, shi := min l.shi c }
  | .distinct =>
    if l.slo ≤ c ∧ c ≤ l.shi then { l with excluded := l.excluded ++ [l.toUnsigned c] } else l
  | _ => l

/-- Adds a bound. Widened by zeros, a value is never negative; widened by its sign, it has an
unsigned order that says nothing simple about it. -/
def add (l : Limits) (b : Bound) : Limits :=
  let c : Int := b.value
  let s := signedValue b.value b.width
  match b.widening with
  | .none => if b.op.isSigned then l.signed b.op s else l.unsigned b.op c
  | .zero => l.unsigned b.op (if b.op.isSigned then s else c)
  | .sign => if b.op.isSigned ∨ b.op = .eq ∨ b.op = .distinct then l.signed b.op s else l

/-! ### Normal form -/

/-- Adds a number to an ascending list that does not have it. -/
def insertPoint (x : Int) : List Int → List Int
  | [] => [x]
  | y :: ys =>
    if x < y then x :: y :: ys
    else if x = y then y :: ys
    else y :: insertPoint x ys

/-- The excluded numbers, ascending and each once. -/
def points (l : Limits) : List Int :=
  l.excluded.foldr insertPoint []

/-- An interval, if it is not empty. -/
def interval? (lo hi : Int) : Option (Int × Int) :=
  if lo ≤ hi then some (lo, hi) else none

/-- The values that the signed limits allow, as unsigned numbers: the numbers from 0 on, and the
negative ones above them. -/
def pieces (l : Limits) : List (Int × Int) :=
  (interval? (max l.slo 0) l.shi).toList ++
    ((interval? l.slo (min l.shi (-1))).map fun (lo, hi) =>
      (lo + 2 ^ l.width, hi + 2 ^ l.width)).toList

/-- Joins two intervals that touch. -/
def join : List (Int × Int) → List (Int × Int)
  | [a, b] => if a.2 + 1 = b.1 then [(a.1, b.2)] else [a, b]
  | rs => rs

/-- Moves the lower end of an interval up, as long as it is excluded and not beyond the upper
end. -/
def raise (points : List Int) (lo hi : Int) : Int :=
  if lo ≤ hi ∧ lo ∈ points then raise points (lo + 1) hi else lo
termination_by (hi + 1 - lo).toNat

/-- Moves the upper end of an interval down, as long as it is excluded and not below the lower
end. -/
def lower (points : List Int) (lo hi : Int) : Int :=
  if lo ≤ hi ∧ hi ∈ points then lower points lo (hi - 1) else hi
termination_by (hi + 1 - lo).toNat

/-- What is left of an interval once its ends are moved, first the lower one. -/
def shrink? (points : List Int) (r : Int × Int) : Option (Int × Int) :=
  let lo := raise points r.1 r.2
  interval? lo (lower points lo r.2)

/-- The lower end only goes up. -/
theorem le_raise (points : List Int) (lo hi : Int) : lo ≤ raise points lo hi := by
  fun_induction raise points lo hi with
  | case1 lo _ ih => omega
  | case2 lo _ => exact Int.le_refl lo

/-- The upper end only goes down. -/
theorem lower_le (points : List Int) (lo hi : Int) : lower points lo hi ≤ hi := by
  fun_induction lower points lo hi with
  | case1 hi _ ih => omega
  | case2 hi _ => exact Int.le_refl hi

/-- What is left of an interval lies in it, and is not empty. -/
theorem shrink?_within {points : List Int} {r s : Int × Int} (h : shrink? points r = some s) :
    r.1 ≤ s.1 ∧ s.1 ≤ s.2 ∧ s.2 ≤ r.2 := by
  have hlo := le_raise points r.1 r.2
  have hhi := lower_le points (raise points r.1 r.2) r.2
  simp only [shrink?, interval?] at h
  split at h
  · cases h
    exact ⟨hlo, ‹_›, hhi⟩
  · cases h

/-- Shrinks some intervals, and drops those of which nothing is left. -/
def pass (points : List Int) (rs : List (Int × Int)) : List (Int × Int) :=
  rs.filterMap (shrink? points)

/-- The size of some intervals: each counts its numbers, and itself. -/
def extent : List (Int × Int) → Nat
  | [] => 0
  | r :: rs => (r.2 + 1 - r.1).toNat + 1 + extent rs

/-- A pass over intervals makes them smaller or changes nothing. -/
theorem extent_pass (points : List Int) (rs : List (Int × Int)) :
    pass points rs = rs ∨ extent (pass points rs) < extent rs := by
  unfold pass
  induction rs with
  | nil => exact .inl rfl
  | cons r rs ih =>
    have hle : extent (rs.filterMap (shrink? points)) ≤ extent rs := by
      rcases ih with ih | ih
      · exact Nat.le_of_eq (congrArg extent ih)
      · exact Nat.le_of_lt ih
    cases hr : shrink? points r with
    | none =>
      rw [List.filterMap_cons_none hr, extent]
      omega
    | some s =>
      obtain ⟨hlo, hne, hhi⟩ := shrink?_within hr
      rw [List.filterMap_cons_some hr]
      by_cases hsame : s = r
      · rcases ih with ih | ih
        · exact .inl (by rw [ih, hsame])
        · rw [extent, extent, hsame]
          omega
      · have hends : s.1 ≠ r.1 ∨ s.2 ≠ r.2 := by
          by_cases h : s.1 = r.1
          · exact .inr fun h' => hsame (Prod.ext h h')
          · exact .inl h
        rw [extent, extent]
        omega

/-- Shrinks intervals, pass after pass, until one changes nothing. -/
def shrinkAll (points : List Int) (rs : List (Int × Int)) : List (Int × Int) :=
  if _ : pass points rs = rs then rs else shrinkAll points (pass points rs)
termination_by extent rs
decreasing_by exact (extent_pass points rs).resolve_left ‹_›

/-- The intervals of the values that the limits allow. -/
def ranges (l : Limits) : List (Int × Int) :=
  shrinkAll l.points
    (join (l.pieces.filterMap fun (lo, hi) => interval? (max lo l.ulo) (min hi l.uhi)))

/-- The domain of the values that the limits allow, in normal form. -/
def domain (l : Limits) : Domain where
  width := l.width
  ranges := l.ranges.map fun (lo, hi) => ⟨lo.toNat, hi.toNat⟩
  excluded := (l.points.filter fun x => l.ranges.any fun (lo, hi) => lo < x && x < hi).map Int.toNat

end Limits

namespace Domain

/-- The domain of an input under some bounds, of which those on other inputs are passed over. -/
def ofBounds (v : Variable) (bounds : List Bound) : Domain :=
  ((bounds.filter (·.var == v)).foldl Limits.add (Limits.start v.width)).domain

/-- The domains of inputs under some constraints. -/
def infer (inputs : List Variable) (constraints : List Term) : List Domain :=
  let bounds := constraints.filterMap (Bound.ofTerm? false)
  inputs.map fun v => ofBounds v bounds

end Domain

end Pathwise
