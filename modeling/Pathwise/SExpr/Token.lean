/-!
# Tokens

The first half of reading S-expressions: characters to tokens. The reader walks over the characters
once, in one of five modes, and counts line feeds on its way; a token carries the line of its first
character.

* **Blanks** are space, tab, line feed and carriage return; a semicolon starts a comment that runs
  to the end of its line.
* **Words** run to the next blank, parenthesis or semicolon.
* **Quotes**: bars enclose a symbol of arbitrary characters, double quotes enclose a string, which
  keeps its quotes. Both may span lines, and neither knows escapes.

A quote that is never closed is a token of its own, the last one.
-/

namespace Pathwise

/-- A token, with the line on which it begins. -/
inductive Token where
  | opening (line : Nat)
  | closing (line : Nat)
  | atom (line : Nat) (text : String)
  | openSymbol (line : Nat)
  | openString (line : Nat)
  deriving Repr, DecidableEq, Inhabited

namespace Token

/-- The line on which a token begins. -/
def line : Token → Nat
  | opening l | closing l | atom l _ | openSymbol l | openString l => l

/-- What the reader is in the middle of. The characters of an unfinished token are in reverse. -/
inductive Mode where
  | gap
  | comment
  | word (line : Nat) (chars : List Char)
  | symbol (line : Nat) (chars : List Char)
  | string (line : Nat) (chars : List Char)
  deriving Repr, DecidableEq, Inhabited

/-- The blanks between tokens. -/
def isGap (c : Char) : Bool :=
  c == ' ' || c == '\t' || c == '\n' || c == '\r'

/-- The characters that end a word. -/
def endsWord (c : Char) : Bool :=
  c == '(' || c == ')' || c == ';' || isGap c

/-- The line after a character of line `l`. -/
def nextLine (l : Nat) (c : Char) : Nat :=
  if c = '\n' then l + 1 else l

/-- An atom whose characters are given in reverse. -/
def atomOf (l : Nat) (chars : List Char) : Token :=
  atom l (String.ofList chars.reverse)

/-- A character between tokens, on line `l`: the tokens that it completes, and the new mode. -/
def gapStep (l : Nat) (c : Char) : List Token × Mode :=
  if isGap c then ([], .gap)
  else if c = ';' then ([], .comment)
  else if c = '(' then ([opening l], .gap)
  else if c = ')' then ([closing l], .gap)
  else if c = '|' then ([], .symbol l [])
  else if c = '"' then ([], .string l [c])
  else ([], .word l [c])

/-- A character on line `l`: the tokens that it completes, and the new mode. -/
def step (l : Nat) (c : Char) : Mode → List Token × Mode
  | .gap => gapStep l c
  | .comment => ([], if c = '\n' then .gap else .comment)
  | .word s cs =>
    if endsWord c then
      let (ts, m) := gapStep l c
      (atomOf s cs :: ts, m)
    else ([], .word s (c :: cs))
  | .symbol s cs => if c = '|' then ([atomOf s cs], .gap) else ([], .symbol s (c :: cs))
  | .string s cs => if c = '"' then ([atomOf s (c :: cs)], .gap) else ([], .string s (c :: cs))

/-- The token that the end of the text completes. -/
def finish : Mode → List Token
  | .gap | .comment => []
  | .word s cs => [atomOf s cs]
  | .symbol s _ => [openSymbol s]
  | .string s _ => [openString s]

/-- The tokens of a text that starts on line `l` in a given mode. -/
def scanFrom (l : Nat) (m : Mode) : List Char → List Token
  | [] => finish m
  | c :: cs =>
    let (ts, m') := step l c m
    ts ++ scanFrom (nextLine l c) m' cs

/-- The tokens of a text, which starts on line 1. -/
def scan (cs : List Char) : List Token :=
  scanFrom 1 .gap cs

end Token

end Pathwise
