import Pathwise.Decimal.Shortest
import Pathwise.Json.Basic
import Pathwise.Text.Quoted

/-!
# Writing JSON

Two layouts: all on one line, and one item or field a line with two spaces for each level. Strings
escape what JSON must, and the characters that are special in HTML or end lines there.
-/

namespace Pathwise.Json

/-- A character inside a string. -/
def writtenChar (c : Char) : String :=
  let n := c.toNat
  if c = '"' then "\\\""
  else if c = '\\' then "\\\\"
  else if n = 8 then "\\b"
  else if n = 12 then "\\f"
  else if c = '\n' then "\\n"
  else if c = '\r' then "\\r"
  else if c = '\t' then "\\t"
  else if n < 0x20 ∨ c = '<' ∨ c = '>' ∨ c = '&' ∨ n = 0x2028 ∨ n = 0x2029 then
    "\\u" ++ Text.hexPadded 4 n
  else c.toString

/-- A string with its quotes. -/
def writtenString (s : String) : String :=
  "\"" ++ String.join (s.toList.map writtenChar) ++ "\""

/-- Numbers are positional from a millionth up to below `10 ^ 21`. -/
def numberStyle : Decimal.Style where
  low := -6
  high := 21
  width := 2
  negativeWidth := 1
  nan := "NaN"
  plusInfinity := "+Inf"
  minusInfinity := "-Inf"

/-- A finite number of double precision; JSON has no others. -/
def float? (x : Float) : Option Json :=
  match Decimal.parts x with
  | .finite _ _ _ => some (number (numberStyle.write x))
  | _ => none

mutual

/-- A value on one line. -/
def compact : Json → String
  | null => "null"
  | bool b => if b then "true" else "false"
  | number n => n
  | string s => writtenString s
  | array items => "[" ++ String.intercalate "," (compactItems items) ++ "]"
  | object fields => "\x7b" ++ String.intercalate "," (compactFields fields) ++ "\x7d"

/-- Values on one line each. -/
def compactItems : List Json → List String
  | [] => []
  | j :: js => compact j :: compactItems js

/-- Fields on one line each. -/
def compactFields : List (String × Json) → List String
  | [] => []
  | (name, j) :: fs => (writtenString name ++ ":" ++ compact j) :: compactFields fs

end

/-- Lines of an array or object at a level of nesting, between its brackets. -/
def block (level : Nat) (opening closing : String) (lines : List String) : String :=
  if lines.isEmpty then opening ++ closing
  else
    let inner := "\n" ++ Text.repeated (2 * (level + 1)) ' '
    opening ++ inner ++ String.intercalate ("," ++ inner) lines ++ "\n" ++
      Text.repeated (2 * level) ' ' ++ closing

mutual

/-- A value with one item or field a line, at a level of nesting. -/
def indented (level : Nat) : Json → String
  | array items => block level "[" "]" (indentedItems (level + 1) items)
  | object fields => block level "\x7b" "\x7d" (indentedFields (level + 1) fields)
  | null => "null"
  | bool b => if b then "true" else "false"
  | number n => n
  | string s => writtenString s

/-- Items of an array. -/
def indentedItems (level : Nat) : List Json → List String
  | [] => []
  | j :: js => indented level j :: indentedItems level js

/-- Fields of an object. -/
def indentedFields (level : Nat) : List (String × Json) → List String
  | [] => []
  | (name, j) :: fs =>
    (writtenString name ++ ": " ++ indented level j) :: indentedFields level fs

end

end Pathwise.Json
