import Pathwise.Text.Numeral

/-!
# Binary fractions

A double-precision number, taken apart: its sign, and a natural number times a power of two. All
decimal texts of numbers are computed from that in exact arithmetic.
-/

namespace Pathwise.Decimal

/-- A double-precision number: not a number, infinite, or `mantissa * 2 ^ exponent` with a sign. -/
inductive Parts where
  | nan
  | infinite (negative : Bool)
  | finite (negative : Bool) (mantissa : Nat) (exponent : Int)
  deriving Repr, DecidableEq, Inhabited

/-- The exponent of the least positive numbers. -/
def leastExponent : Int := -1074

/-- Takes a number apart. -/
def parts (x : Float) : Parts :=
  let bits := x.toBits.toNat
  let negative := 2 ^ 63 ≤ bits
  let e : Nat := bits / 2 ^ 52 % 2 ^ 11
  let f : Nat := bits % 2 ^ 52
  if e = 2047 then if f = 0 then .infinite negative else .nan
  else if e = 0 then .finite negative f leastExponent
  else .finite negative (f + 2 ^ 52) ((e : Int) - 1075)

/-- The fraction `m * base ^ e` as a numerator and a denominator. -/
def scaled (m base : Nat) (e : Int) : Nat × Nat :=
  if 0 ≤ e then (m * base ^ e.toNat, 1) else (m, base ^ (-e).toNat)

/-- Whether a number is not a number. -/
def isNaN (x : Float) : Bool :=
  parts x == .nan

/-! ### Fixed places

The exact value is rounded to the nearest decimal, a tie to the one with the even last digit. -/

/-- The quotient rounded to the nearest natural number, a tie to the even one. -/
def roundDiv (num den : Nat) : Nat :=
  let q := num / den
  let r := num % den
  if 2 * r < den then q
  else if den < 2 * r then q + 1
  else if q % 2 = 0 then q else q + 1

/-- The text of a number with `places` decimal places, at least one. -/
def fixed (places : Nat) (x : Float) : String :=
  match parts x with
  | .nan => "NaN"
  | .infinite negative => if negative then "-Inf" else "+Inf"
  | .finite negative m q =>
    let (num, den) := scaled m 2 q
    let digits := Text.padLeft (places + 1) '0' (toString (roundDiv (num * 10 ^ places) den))
    let whole := digits.length - places
    (if negative then "-" else "") ++ String.ofList (digits.toList.take whole) ++ "." ++
      String.ofList (digits.toList.drop whole)

end Pathwise.Decimal
