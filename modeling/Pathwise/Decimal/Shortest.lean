import Pathwise.Decimal.Binary

/-!
# Shortest decimals

The decimal with the fewest digits that reads back as a given number, and of those the nearest.
Every real closer to the number than to its neighbours reads back as it; the ends of that interval
do if the mantissa is even. For 1, 2, … 17 digits the two decimals around the number are tried, and
the first that lie in the interval win.

* `Style` says how the digits are laid out: positional notation between two powers of ten, and
  an exponent outside.
-/

namespace Pathwise.Decimal

/-- A positive decimal: `value * 10 ^ scale`. -/
structure Digits where
  value : Nat
  scale : Int
  deriving Repr, DecidableEq, Inhabited

/-- The number of decimal digits of a natural number. -/
def digitCount (n : Nat) : Nat :=
  (Nat.toDigits 10 n).length

/-- The greatest `p` such that `10 ^ p` is at most the positive fraction `num / den`. -/
def magnitude (num den : Nat) : Int :=
  if den ≤ num then (digitCount (num / den) : Int) - 1
  else
    let t := digitCount (den / num)
    if den ≤ num * 10 ^ (t - 1) then 1 - (t : Int) else -(t : Int)

/-- Moves trailing zeros into the scale. At most `fuel` are moved. -/
def stripZeros : Nat → Digits → Digits
  | 0, d => d
  | fuel + 1, d =>
    if d.value % 10 = 0 ∧ d.value ≠ 0 then stripZeros fuel ⟨d.value / 10, d.scale + 1⟩ else d

/-- An interval of reals around a fraction, over a common denominator. -/
structure Around where
  low : Nat
  middle : Nat
  high : Nat
  den : Nat
  closed : Bool

/-- The reals that read back as `m * 2 ^ q`. Below a power of two the numbers lie closer. -/
def around (m : Nat) (q : Int) : Around :=
  let (u, den) := scaled 1 2 (q - 2)
  let below := if m = 2 ^ 52 ∧ leastExponent < q then 1 else 2
  ⟨(4 * m - below) * u, 4 * m * u, (4 * m + 2) * u, den, m % 2 == 0⟩

/-- Whether `c * 10 ^ k` lies in an interval. -/
def Around.has (a : Around) (k : Int) (c : Nat) : Bool :=
  let (u, v) := scaled 1 10 k
  let x := c * u * a.den
  if a.closed then a.low * v ≤ x && x ≤ a.high * v else a.low * v < x && x < a.high * v

/-- The decimal of the grid `10 ^ k` that is nearest to the middle of those in the interval. Of two
that are equally near, the even one is taken. -/
def Around.onGrid? (a : Around) (k : Int) : Option Nat :=
  let (u, v) := scaled 1 10 k
  let c := a.middle * v / (u * a.den)
  match a.has k c, a.has k (c + 1) with
  | true, true =>
    match compare (2 * a.middle * v) ((2 * c + 1) * u * a.den) with
    | .lt => some c
    | .eq => some (if c % 2 = 0 then c else c + 1)
    | .gt => some (c + 1)
  | true, false => some c
  | false, true => some (c + 1)
  | false, false => none

/-- Tries grids from coarse to fine, `fuel` of them. -/
def Around.search (a : Around) (k : Int) : Nat → Digits
  | 0 => ⟨0, 0⟩
  | fuel + 1 =>
    match a.onGrid? k with
    | some c => stripZeros 20 ⟨c, k⟩
    | none => a.search (k - 1) fuel

/-- The shortest decimal that reads back as the positive number `m * 2 ^ q`. -/
def shortest (m : Nat) (q : Int) : Digits :=
  let (num, den) := scaled m 2 q
  (around m q).search (magnitude num den) 18

/-! ### Layout -/

/-- Digits with the decimal point after the first `point` of them, filled up with zeros. -/
def positional (digits : String) (point : Int) : String :=
  let n := digits.length
  if point ≤ 0 then "0." ++ Text.repeated (-point).toNat '0' ++ digits
  else if (n : Int) ≤ point then digits ++ Text.repeated (point.toNat - n) '0'
  else
    String.ofList (digits.toList.take point.toNat) ++ "." ++
      String.ofList (digits.toList.drop point.toNat)

/-- Digits with the decimal point after the first of them, and the exponent with at least `width`
digits. -/
def exponential (width : Nat) (digits : String) (exponent : Int) : String :=
  let fraction :=
    match digits.toList with
    | d :: d' :: ds => String.ofList (d :: '.' :: d' :: ds)
    | ds => String.ofList ds
  let sign := if exponent < 0 then "e-" else "e+"
  fraction ++ sign ++ Text.padLeft width '0' (toString exponent.natAbs)

/-- How numbers are laid out: positional if the power of ten of the first digit is at least `low`
and below `high`, else with an exponent. An exponent has at least `width` digits, a negative one at
least `negativeWidth`. The texts of what is not finite follow. -/
structure Style where
  low : Int
  high : Int
  width : Nat
  negativeWidth : Nat
  nan : String
  plusInfinity : String
  minusInfinity : String
  deriving Repr

/-- The shortest text of a number in a style. -/
def Style.write (s : Style) (x : Float) : String :=
  match parts x with
  | .nan => s.nan
  | .infinite negative => if negative then s.minusInfinity else s.plusInfinity
  | .finite negative m q =>
    let sign := if negative then "-" else ""
    if m = 0 then sign ++ "0"
    else
      let d := shortest m q
      let digits := toString d.value
      let exponent := (digits.length : Int) + d.scale - 1
      if s.low ≤ exponent ∧ exponent < s.high then sign ++ positional digits (exponent + 1)
      else
        let width := if exponent < 0 then s.negativeWidth else s.width
        sign ++ exponential width digits exponent

end Pathwise.Decimal
