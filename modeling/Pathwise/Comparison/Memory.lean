import Pathwise.Decimal.Binary
import Pathwise.Profile.Basic
import Pathwise.Verdict

/-!
# Comparing memory accesses

Sequences of accesses are compared by their keys. Their similarity is the length of the longest
common subsequence relative to the longer one. Two thresholds turn it into a verdict; in between,
memory alone does not decide. A sequence that does the same at other places is relocated, and does
not count as equivalent.
-/

namespace Pathwise

/-! ### Longest common subsequences

The length of the longest list that is a subsequence of two lists, by rows: the row of a list `ys`
gives the lengths for `ys` and each non-empty initial segment of `xs`. -/

namespace Subsequence

universe u

variable {α : Type u} [DecidableEq α]

/-- The row for one more member `y`. Given are the lengths to the upper left and to the left of the
first entry, and the row above. -/
def nextRow (y : α) : List α → Nat → Nat → List Nat → List Nat
  | x :: xs, corner, left, up :: ups =>
    let here := if x = y then corner + 1 else max up left
    here :: nextRow y xs up here ups
  | _, _, _, _ => []

/-- The last row, for all of `ys`. -/
def lastRow (xs ys : List α) : List Nat :=
  ys.foldl (fun row y => nextRow y xs 0 0 row) (xs.map fun _ => 0)

/-- The length of a longest common subsequence. Rows go along the shorter list. -/
def longestCommon (xs ys : List α) : Nat :=
  if ys.length < xs.length then (lastRow ys xs).getLastD 0 else (lastRow xs ys).getLastD 0

end Subsequence

/-! ### Access sequences -/

namespace Memory

/-- How similar access sequences have to be to count as equivalent, and up to where they count as
not equivalent. -/
structure Thresholds where
  equivalent : Float
  notEquivalent : Float
  deriving Repr, Inhabited

/-- The thresholds if nothing else is asked for. -/
def Thresholds.default : Thresholds :=
  ⟨0.9, 0.3⟩

/-- What is found about two access sequences. -/
structure Details where
  similarity : Float
  common : Nat
  lengthA : Nat
  lengthB : Nat
  relocated : List Nat
  deriving Repr, Inhabited

/-- The similarity of two sequences by their lengths and that of a longest common subsequence. Two
empty sequences are the same. -/
def similarity (common lengthA lengthB : Nat) : Float :=
  if lengthA = 0 && lengthB = 0 then 1
  else if lengthA = 0 || lengthB = 0 then 0
  else Float.ofNat common / Float.ofNat (max lengthA lengthB)

/-- Whether two keys agree in all but the position. -/
def sameShape (a b : Access.Key) : Bool :=
  a.kind == b.kind && a.base == b.base && a.epoch == b.epoch

/-- The places at which two sequences have different positions, if they have the same length and
agree in all else. -/
def relocated (as bs : List Access.Key) : List Nat :=
  let pairs := as.zip bs
  if as.length = bs.length && pairs.all (fun (a, b) => sameShape a b) then
    (pairs.zipIdx.filter fun ((a, b), _) => a.position != b.position).map (·.2)
  else []

/-- Compares two sequences of accesses. -/
def details (policy : AddressPolicy) (as bs : List Access) : Details :=
  let xs := as.map (·.key policy)
  let ys := bs.map (·.key policy)
  let common := Subsequence.longestCommon xs ys
  { similarity := similarity common as.length bs.length
    common
    lengthA := as.length
    lengthB := bs.length
    relocated := relocated xs ys }

/-- A similarity for reports. -/
def similarityText (x : Float) : String :=
  "similarity " ++ Decimal.fixed 2 x

/-- What the details of a comparison amount to. -/
def judge (t : Thresholds) (d : Details) : Verdict :=
  if d.lengthA = 0 && d.lengthB = 0 then .equivalent
  else if d.similarity ≥ t.equivalent then .equivalent
  else if !d.relocated.isEmpty then .notEquivalent
  else if d.similarity ≤ t.notEquivalent then .notEquivalent
  else .unknown

/-- How the details of a comparison are reported. -/
def report (t : Thresholds) (as bs : List Access) (d : Details) : String :=
  let common := similarityText d.similarity ++ " (LCS " ++ toString d.common ++ " of " ++
    toString d.lengthA ++ "/" ++ toString d.lengthB ++ " accesses)"
  if d.lengthA = 0 && d.lengthB = 0 then "no memory accesses on either side"
  else if d.similarity ≥ t.equivalent then common
  else
    match d.relocated with
    | [] => common
    | i :: _ =>
      "access #" ++ toString i ++ " relocated: " ++ ((as[i]?.map Access.text).getD "") ++ " vs " ++
        ((bs[i]?.map Access.text).getD "") ++ " (" ++ similarityText d.similarity ++ ")"

/-- Compares the memory accesses of two paths. -/
def compare (policy : AddressPolicy) (t : Thresholds) (a b : Profile) : LayerResult :=
  let d := details policy a.accesses b.accesses
  { layer := .memory
    verdict := judge t d
    score := d.similarity
    detail := report t a.accesses b.accesses d }

end Memory

end Pathwise
