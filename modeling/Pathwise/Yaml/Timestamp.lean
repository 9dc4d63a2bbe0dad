import Pathwise.Text.Blank
import Pathwise.Time.Instant

/-!
# Scalars that look like times

A plain scalar can also mean a date, an instant, or a number in base 60 such as `12:30:45`. A text
that looks like one of these has to be quoted where it is written.
-/

namespace Pathwise.Yaml

open Pathwise.Instant

/-- Reads a date with one or two digits for its month and its day. -/
def date? (cs : List Char) : Option (List Char) := do
  let (year, cs) ← fixed? 4 cs
  let cs ← sign? '-' cs
  let (month, cs) ← oneOrTwo? cs
  let cs ← sign? '-' cs
  let (day, cs) ← oneOrTwo? cs
  if month = 0 || month > 12 || day = 0 || day > monthLength year month then none else some cs

/-- Reads a time of day, with one or two digits for each part. -/
def timeOfDay? (cs : List Char) : Option (List Char) := do
  let (hour, cs) ← oneOrTwo? cs
  let cs ← sign? ':' cs
  let (minute, cs) ← oneOrTwo? cs
  let cs ← sign? ':' cs
  let (second, cs) ← oneOrTwo? cs
  if hour ≥ 24 || minute ≥ 60 || second ≥ 60 then none else some (fraction cs).2

/-- What may follow the date of a timestamp: nothing, a time of day after spaces, or one after a `T`
with an offset. -/
def isTimeAfterDate : List Char → Bool
  | [] => true
  | c :: cs =>
    if c = ' ' then timeOfDay? (cs.dropWhile (· == ' ')) == some []
    else if c = 'T' ∨ c = 't' then ((timeOfDay? cs).bind offset?).isSome
    else false

/-- Whether a scalar means a date or an instant. -/
def isTimestamp (cs : List Char) : Bool :=
  (date? cs).any isTimeAfterDate

/-- Whether a group of a number in base 60 is below 60. -/
def isSixty (cs : List Char) : Bool :=
  match cs with
  | [d] => Text.isDigit d
  | [t, d] => '0' ≤ t && t ≤ '5' && Text.isDigit d
  | _ => false

/-- Whether a scalar means a number in base 60: digits, one or more groups below 60 after colons,
and maybe a fraction. -/
def isSexagesimal (cs : List Char) : Bool :=
  let isPart (c : Char) := Text.isDigit c || c == '_'
  let cs := match cs with
    | '-' :: ds | '+' :: ds => ds
    | ds => ds
  let (whole, isFraction) :=
    match Text.cut? (· == '.') cs with
    | none => (cs, true)
    | some (whole, fraction) => (whole, fraction.all isPart)
  match whole.splitOn ':' with
  | [] | [_] => false
  | head :: groups =>
    isFraction && head.head?.any Text.isDigit && head.all isPart && groups.all isSixty

end Pathwise.Yaml
