import Pathwise.Text.Numeral

/-!
# Reading decimals

A decimal numeral with an optional fraction and an optional exponent becomes the nearest number of
double precision. Numerals far outside the range are settled by their magnitude alone.
-/

namespace Pathwise.Decimal

/-- An unsigned decimal numeral: the digits before and after the point, and the exponent. -/
structure Numeral where
  whole : List Char
  fraction : List Char
  exponent : Int
  deriving Repr, DecidableEq, Inhabited

/-- The nearest number to an unsigned numeral. -/
def Numeral.toFloat (n : Numeral) : Float :=
  let digits := (n.whole ++ n.fraction).dropWhile (· == '0')
  let m := (Text.moreDigits? 10 0 digits).getD 0
  let e := n.exponent - n.fraction.length
  let top := (digits.length : Int) + e
  if m = 0 then 0
  else if 400 < top then 1 / 0
  else if top < -400 then 0
  else if e < 0 then Float.ofScientific m true (-e).toNat
  else Float.ofScientific m false e.toNat

/-- Reads an exponent: a mark `e` or `E`, an optional sign, and digits. What is not an exponent is
left alone. -/
def readExponent (cs : List Char) : Option (Int × List Char) :=
  match cs with
  | mark :: rest =>
    if mark = 'e' ∨ mark = 'E' then
      let (negative, rest) :=
        match rest with
        | '-' :: r => (true, r)
        | '+' :: r => (false, r)
        | r => (false, r)
      let (ds, tail) := rest.span Text.isDigit
      (Text.digits? 10 ds).map fun n => (if negative then -(n : Int) else (n : Int), tail)
    else none
  | [] => none

end Pathwise.Decimal
