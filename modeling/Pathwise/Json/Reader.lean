import Pathwise.Json.Basic
import Pathwise.Text.Numeral

/-!
# Reading JSON

A strict reader of JSON texts: one value, with blanks around it. In strings, an escaped surrogate
without its partner denotes U+FFFD.

The grammar is nested, so the reader of values takes a bound on the number of nested steps. A text
is never longer in steps than in characters; `read?` uses that bound and shows none.
-/

namespace Pathwise.Json

/-- The blanks of JSON. -/
def isGap (c : Char) : Bool :=
  c == ' ' || c == '\t' || c == '\n' || c == '\r'

/-- The text without the blanks at its beginning. -/
def skipGap (cs : List Char) : List Char :=
  cs.dropWhile isGap

/-! ### Strings -/

/-- The value of four hexadecimal digits. -/
def hex4? (a b c d : Char) : Option Nat :=
  Text.moreDigits? 16 0 [a, b, c, d]

/-- Whether a code unit is the first half of a pair. -/
def isHigh (n : Nat) : Bool :=
  0xD800 ≤ n && n < 0xDC00

/-- Whether a code unit is the second half of a pair. -/
def isLow (n : Nat) : Bool :=
  0xDC00 ≤ n && n < 0xE000

/-- The character for half of a pair without its partner. -/
def replacement : Char := Char.ofNat 0xFFFD

/-- The character of a pair of code units. -/
def pairChar (high low : Nat) : Char :=
  Char.ofNat (0x10000 + (high - 0xD800) * 0x400 + (low - 0xDC00))

/-- The characters of a string read so far, in reverse. The first half of a pair waits for its
partner. -/
structure Unfinished where
  waiting : Option Nat
  chars : List Char

/-- Gives up waiting for a partner. -/
def Unfinished.settled (p : Unfinished) : List Char :=
  if p.waiting.isSome then replacement :: p.chars else p.chars

/-- Adds a character. -/
def Unfinished.push (p : Unfinished) (c : Char) : Unfinished :=
  ⟨none, c :: p.settled⟩

/-- Adds a code unit. -/
def Unfinished.pushUnit (p : Unfinished) (n : Nat) : Unfinished :=
  if isHigh n then ⟨some n, p.settled⟩
  else if isLow n then
    match p.waiting with
    | some high => ⟨none, pairChar high n :: p.chars⟩
    | none => p.push replacement
  else p.push (Char.ofNat n)

/-- The character that a letter after a backslash stands for. -/
def escaped? (c : Char) : Option Char :=
  if c = '"' ∨ c = '\\' ∨ c = '/' then some c
  else if c = 'b' then some (Char.ofNat 8)
  else if c = 'f' then some (Char.ofNat 12)
  else if c = 'n' then some '\n'
  else if c = 'r' then some '\r'
  else if c = 't' then some '\t'
  else none

/-- Reads a string after its opening quote, and gives what follows its closing quote. -/
def stringFrom (done : Unfinished) : List Char → Option (String × List Char)
  | [] => none
  | '"' :: cs => some (String.ofList done.settled.reverse, cs)
  | '\\' :: 'u' :: a :: b :: c :: d :: cs =>
    match hex4? a b c d with
    | some n => stringFrom (done.pushUnit n) cs
    | none => none
  | '\\' :: e :: cs =>
    match escaped? e with
    | some c => stringFrom (done.push c) cs
    | none => none
  | c :: cs => if c.toNat < 0x20 ∨ c = '\\' then none else stringFrom (done.push c) cs

/-- Reads a string after its opening quote, from the beginning. -/
def string? (cs : List Char) : Option (String × List Char) :=
  stringFrom ⟨none, []⟩ cs

/-! ### Numbers -/

/-- Reads one or more digits. -/
def someDigits? (cs : List Char) : Option (List Char × List Char) :=
  let (ds, rest) := cs.span Text.isDigit
  if ds.isEmpty then none else some (ds, rest)

/-- Reads the digits before the point: a lone zero, or digits that do not begin with one. -/
def wholePart? : List Char → Option (List Char × List Char)
  | '0' :: cs => some (['0'], cs)
  | cs => someDigits? cs

/-- Reads the point and the digits after it, if there is a point. -/
def fractionPart? : List Char → Option (List Char × List Char)
  | '.' :: cs => (someDigits? cs).map fun (ds, rest) => ('.' :: ds, rest)
  | cs => some ([], cs)

/-- Reads an exponent, if there is one. -/
def exponentPart? : List Char → Option (List Char × List Char)
  | c :: cs =>
    if c = 'e' ∨ c = 'E' then
      let (sign, cs) :=
        match cs with
        | '+' :: r => (['+'], r)
        | '-' :: r => (['-'], r)
        | r => ([], r)
      (someDigits? cs).map fun (ds, rest) => (c :: sign ++ ds, rest)
    else some ([], c :: cs)
  | [] => some ([], [])

/-- Reads a number without its sign. -/
def magnitude? (cs : List Char) : Option (List Char × List Char) := do
  let (whole, cs) ← wholePart? cs
  let (fraction, cs) ← fractionPart? cs
  let (exponent, cs) ← exponentPart? cs
  return (whole ++ fraction ++ exponent, cs)

/-- Reads a number. -/
def number? : List Char → Option (List Char × List Char)
  | '-' :: cs => (magnitude? cs).map fun (ds, rest) => ('-' :: ds, rest)
  | cs => magnitude? cs

/-- Whether a text is a JSON number. -/
def isNumber (s : String) : Bool :=
  match number? s.toList with
  | some (_, []) => true
  | _ => false

/-! ### Values -/

/-- How deep arrays and objects can be nested. -/
def nestingLimit : Nat := 10000

mutual

/-- Reads a value that begins at once inside some arrays and objects, and gives what follows it. -/
def valueFrom (nested : Nat) : Nat → List Char → Option (Json × List Char)
  | 0, _ => none
  | fuel + 1, cs =>
    match cs with
    | 'n' :: 'u' :: 'l' :: 'l' :: cs => some (null, cs)
    | 't' :: 'r' :: 'u' :: 'e' :: cs => some (bool true, cs)
    | 'f' :: 'a' :: 'l' :: 's' :: 'e' :: cs => some (bool false, cs)
    | '"' :: cs => (string? cs).map fun (s, rest) => (string s, rest)
    | '[' :: cs =>
      if nestingLimit ≤ nested then none
      else
        match skipGap cs with
        | ']' :: rest => some (array [], rest)
        | cs => itemsFrom (nested + 1) fuel [] cs
    | '{' :: cs =>
      if nestingLimit ≤ nested then none
      else
        match skipGap cs with
        | '}' :: rest => some (object [], rest)
        | cs => fieldsFrom (nested + 1) fuel [] cs
    | cs => (number? cs).map fun (ds, rest) => (number (String.ofList ds), rest)

/-- Reads the rest of an array from an item on. The items before it are given in reverse. -/
def itemsFrom (nested : Nat) : Nat → List Json → List Char → Option (Json × List Char)
  | 0, _, _ => none
  | fuel + 1, done, cs =>
    match valueFrom nested fuel cs with
    | none => none
    | some (j, cs) =>
      match skipGap cs with
      | ']' :: rest => some (array (j :: done).reverse, rest)
      | ',' :: cs => itemsFrom nested fuel (j :: done) (skipGap cs)
      | _ => none

/-- Reads the rest of an object from a field on. The fields before it are given in reverse. -/
def fieldsFrom (nested : Nat) : Nat → List (String × Json) → List Char → Option (Json × List Char)
  | 0, _, _ => none
  | fuel + 1, done, cs =>
    match cs with
    | '"' :: cs =>
      match string? cs with
      | none => none
      | some (name, cs) =>
        match skipGap cs with
        | ':' :: cs =>
          match valueFrom nested fuel (skipGap cs) with
          | none => none
          | some (j, cs) =>
            match skipGap cs with
            | '}' :: rest => some (object ((name, j) :: done).reverse, rest)
            | ',' :: cs => fieldsFrom nested fuel ((name, j) :: done) (skipGap cs)
            | _ => none
        | _ => none
    | _ => none

end

/-- The value of a JSON text. -/
def read? (text : String) : Option Json :=
  let cs := text.toList
  match valueFrom 0 (cs.length + 1) (skipGap cs) with
  | some (j, rest) => if (skipGap rest).isEmpty then some j else none
  | none => none

end Pathwise.Json
