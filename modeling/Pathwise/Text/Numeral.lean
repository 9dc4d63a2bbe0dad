import Pathwise.Word
import Pathwise.Text.Blank

/-!
# Numerals

Reading and writing integers in base 2, 10 and 16.

* `digits?` reads one or more digits of a base and nothing else.
* `signed?` allows one sign in front.
* `hex`, `padded` write.
-/

namespace Pathwise.Text

/-- The value of a character as a digit of the given base, letters in either case. -/
def digit? (base : Nat) (c : Char) : Option Nat :=
  let v? :=
    if '0' ≤ c ∧ c ≤ '9' then some (c.toNat - '0'.toNat)
    else if 'a' ≤ c ∧ c ≤ 'z' then some (c.toNat - 'a'.toNat + 10)
    else if 'A' ≤ c ∧ c ≤ 'Z' then some (c.toNat - 'A'.toNat + 10)
    else none
  v?.filter (· < base)

/-- Reads the digits `cs` after a number `acc` already read. -/
def moreDigits? (base : Nat) (acc : Nat) : List Char → Option Nat
  | [] => some acc
  | c :: cs =>
    match digit? base c with
    | none => none
    | some d => moreDigits? base (acc * base + d) cs

/-- Reads one or more digits of a base. -/
def digits? (base : Nat) (cs : List Char) : Option Nat :=
  if cs.isEmpty then none else moreDigits? base 0 cs

/-- Reads one or more digits of a base after at most one sign. -/
def signed? (base : Nat) : List Char → Option Int
  | '-' :: cs => (digits? base cs).map fun n => -(n : Int)
  | '+' :: cs => (digits? base cs).map fun n => (n : Int)
  | cs => (digits? base cs).map fun n => (n : Int)

/-- Reads digits of a number below `limit`. -/
def digitsBelow? (base limit : Nat) (cs : List Char) : Option Nat :=
  (digits? base cs).filter (· < limit)

/-- Reads a decimal number of at most 32 bits. -/
def nat32? (s : String) : Option Nat :=
  digitsBelow? 10 (2 ^ 32) s.toList

/-- Reads a decimal number that a signed word of 64 bits can hold. -/
def nat63? (cs : List Char) : Option Nat :=
  digitsBelow? 10 (2 ^ 63) cs

/-- Whether a character is a decimal digit. -/
def isDigit (c : Char) : Bool :=
  (digit? 10 c).isSome

/-- Hexadecimal digits in lower case, without leading zeros. -/
def hex (n : Nat) : String :=
  String.ofList (Nat.toDigits 16 n)

/-- Puts copies of `fill` before a text until it has `width` characters. -/
def padLeft (width : Nat) (fill : Char) (s : String) : String :=
  repeated (width - s.length) fill ++ s

/-- Decimal digits of an integer, filled with zeros to a width that counts the sign. -/
def padded (width : Nat) (n : Int) : String :=
  if n < 0 then "-" ++ padLeft (width - 1) '0' (toString n.natAbs)
  else padLeft width '0' (toString n.natAbs)

end Pathwise.Text
