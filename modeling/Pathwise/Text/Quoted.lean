import Pathwise.Text.Numeral
import Pathwise.Text.Printable

/-!
# Quoted text

Error messages show names between double quotes. Printable characters stand for themselves; a
double quote and a backslash have a backslash in front, seven controls have a letter, and all other
characters are written by their code point in two, four or eight hexadecimal digits.
-/

namespace Pathwise.Text

/-- Hexadecimal digits filled with zeros to a width. -/
def hexPadded (width n : Nat) : String :=
  padLeft width '0' (hex n)

/-- A character as it is written inside double quotes. -/
def quotedChar (c : Char) : String :=
  let n := c.toNat
  if c = '"' then "\\\""
  else if c = '\\' then "\\\\"
  else if isPrintable c then c.toString
  else if n = 7 then "\\a"
  else if n = 8 then "\\b"
  else if n = 12 then "\\f"
  else if n = 10 then "\\n"
  else if n = 13 then "\\r"
  else if n = 9 then "\\t"
  else if n = 11 then "\\v"
  else if n < 0x80 then "\\x" ++ hexPadded 2 n
  else if n < 0x10000 then "\\u" ++ hexPadded 4 n
  else "\\U" ++ hexPadded 8 n

/-- A text between double quotes. -/
def quoted (s : String) : String :=
  "\"" ++ String.join (s.toList.map quotedChar) ++ "\""

end Pathwise.Text
