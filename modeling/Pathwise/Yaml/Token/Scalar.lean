import Pathwise.Text.Numeral
import Pathwise.Yaml.Cursor

/-!
# Scanning scalars

A scalar can stand on several lines.

* **Folding**: in plain and quoted scalars one line feed is read as a space, and of several all but
  the first stay. Line separators stay.
* **Plain** scalars end before a comment, a colon that ends a word, and in flow collections before
  signs of structure. Further lines have to be indented.
* **Quoted** scalars end at their quote. In double quotes a backslash begins an escape, and takes
  the line end away if it stands before one.
* **Block** scalars have the lines that are indented at least as far as the first. They are kept
  (`|`) or folded (`>`); a sign says what becomes of the line ends at the end.
-/

namespace Pathwise.Yaml

/-! ### Gaps -/

/-- Blanks and line ends between words: the blanks before the first line end, that line end, and
the further ones. It is broken if a line has ended. -/
structure Gap where
  blanks : List Char
  first : List Char
  more : List Char
  broken : Bool
  deriving Repr, Inhabited

namespace Gap

/-- The gap in which nothing stands. -/
def empty : Gap :=
  ⟨[], [], [], false⟩

/-- The gap after a line end that does not count. -/
def afterEscapedBreak : Gap :=
  ⟨[], [], [], true⟩

/-- Adds a blank. After a line end blanks do not count. -/
def addBlank (g : Gap) (c : Char) : Gap :=
  if g.broken then g else { g with blanks := g.blanks ++ [c] }

/-- Adds the text of a line end. -/
def addBreak (g : Gap) (text : List Char) : Gap :=
  if g.broken then { g with more := g.more ++ text } else ⟨[], text, [], true⟩

/-- The text that a gap stands for. -/
def text (g : Gap) : List Char :=
  if !g.broken then g.blanks
  else if g.first = ['\n'] then if g.more.isEmpty then [' '] else g.more
  else g.first ++ g.more

end Gap

/-- Reads the rest of a gap. With a least column, tabs before it are refused on further lines.
There are no more blanks and line ends than characters. -/
def gapFrom (least : Option Nat) (g : Gap) : Nat → Scan Gap
  | 0 => return g
  | fuel + 1 => do
    let c ← get
    match c.rest with
    | [] => return g
    | d :: _ =>
      if isBlank d then
        if d = '\t' && g.broken && least.any (c.column < ·) then Scan.refuse .tabInPlain
        Scan.skip
        Scan.need 1
        gapFrom least (g.addBlank d) fuel
      else if isBreak d then
        let text ← Scan.takeBreak
        Scan.need 1
        gapFrom least (g.addBreak text) fuel
      else return g

/-! ### Plain scalars -/

/-- Signs that end a plain scalar inside a flow collection. -/
def flowSigns : List Char :=
  [',', '?', '[', ']', '\x7b', '\x7d']

/-- Whether a plain scalar goes on with the first of these characters. -/
def isInPlain (flow : Bool) : List Char → Bool
  | [] => false
  | c :: cs =>
    !isBlank c && !isBreak c && !(c = ':' && endsWord cs) && !(flow && flowSigns.contains c)

/-- Takes the rest of a word of a plain scalar, given what was taken so far in reverse and the text
from the cursor on. -/
def plainWordFrom (flow : Bool) (taken : List Char) : List Char → Scan (List Char)
  | [] => return taken.reverse
  | d :: ds =>
    if isInPlain flow (d :: ds) then do
      Scan.skip
      Scan.need 2
      plainWordFrom flow (d :: taken) ds
    else return taken.reverse

/-- A plain scalar that was read: its text, and whether the gap after it has a line end. -/
structure PlainText where
  text : List Char
  broken : Bool
  deriving Repr, Inhabited

/-- Reads the rest of a plain scalar, of which some text and a gap have been read. The text is given
in reverse. There are no more words than characters. -/
def plainFrom (flow : Bool) (least size : Nat) (text : List Char) (g : Gap) :
    Nat → Scan PlainText
  | 0 => return ⟨text.reverse, g.broken⟩
  | fuel + 1 => do
    Scan.need 4
    let c ← get
    if c.atDocumentMark || c.sees '#' then return ⟨text.reverse, g.broken⟩
    let word ← plainWordFrom flow [] c.rest
    let next ← get
    if word.isEmpty then return ⟨text.reverse, g.broken⟩
    let text := word.reverse ++ g.text.reverse ++ text
    if !next.atBlank && !next.atBreak then return ⟨text.reverse, false⟩
    Scan.need 1
    let gap ← gapFrom (some least) .empty (size + 1)
    if !flow && (← get).column < least then return ⟨text.reverse, gap.broken⟩
    plainFrom flow least size text gap fuel

/-- Reads a plain scalar in a text of some size. -/
def plainScalar (flow : Bool) (least size : Nat) : Scan PlainText :=
  plainFrom flow least size [] .empty (size + 1)

/-! ### Quoted scalars -/

/-- The sign around scalars in which only that sign is special, and is doubled. -/
def singleQuote : Char := Char.ofNat 39

/-- A character after a backslash that stands for one character. -/
def escaped? (c : Char) : Option Char :=
  match c with
  | '0' => some (Char.ofNat 0)
  | 'a' => some (Char.ofNat 7)
  | 'b' => some (Char.ofNat 8)
  | 't' | '\t' => some '\t'
  | 'n' => some '\n'
  | 'v' => some (Char.ofNat 11)
  | 'f' => some (Char.ofNat 12)
  | 'r' => some '\r'
  | 'e' => some (Char.ofNat 27)
  | 'N' => some (Char.ofNat 0x85)
  | '_' => some (Char.ofNat 0xA0)
  | 'L' => some (Char.ofNat 0x2028)
  | 'P' => some (Char.ofNat 0x2029)
  | _ => if c == ' ' || c == '"' || c == singleQuote || c == '\\' then some c else none

/-- How many hexadecimal digits follow a character after a backslash. -/
def escapeLength? : Char → Option Nat
  | 'x' => some 2
  | 'u' => some 4
  | 'U' => some 8
  | _ => none

/-- Reads the character that hexadecimal digits stand for. -/
def hexadecimalChar (count : Nat) : Scan Char := do
  Scan.need count
  let digits := (← get).rest.take count
  Scan.check (digits.length == count) .badHexadecimal
  match Text.digits? 16 digits with
  | none => Scan.refuse .badHexadecimal
  | some code =>
    Scan.check (Nat.isValidChar code) .badCodePoint
    Scan.skips count
    return Char.ofNat code

/-- Reads an escape that begins here. -/
def escape : Scan Char := do
  match (← get).rest with
  | _ :: d :: _ =>
    match escaped? d, escapeLength? d with
    | some e, _ => do
      Scan.skips 2
      return e
    | none, some n => do
      Scan.skips 2
      hexadecimalChar n
    | none, none => Scan.refuse .unknownEscape
  | _ => Scan.refuse .unknownEscape

/-- Reads the rest of a word of a quoted scalar. The text so far is given in reverse. The result
also says whether the word ends with an escaped line end. -/
def quotedWord (quote : Char) (text : List Char) : Nat → Scan (List Char × Bool)
  | 0 => return (text, false)
  | fuel + 1 => do
    match (← get).rest with
    | [] => return (text, false)
    | d :: ds =>
      if isBlank d || isBreak d then return (text, false)
      else if d = quote then
        if quote = singleQuote && ds.head? == some quote then
          Scan.skips 2
          Scan.need 2
          quotedWord quote (d :: text) fuel
        else return (text, false)
      else if d = '\\' && quote != singleQuote then
        if ds.head?.any isBreak then
          Scan.need 3
          Scan.skip
          modify Cursor.skipBreak
          return (text, true)
        else
          let e ← escape
          Scan.need 2
          quotedWord quote (e :: text) fuel
      else
        Scan.skip
        Scan.need 2
        quotedWord quote (d :: text) fuel

/-- Reads the rest of a quoted scalar. Its text so far is given in reverse. There are no more words
than characters, and none is longer than the characters left. -/
def quotedFrom (quote : Char) (text : List Char) : Nat → Scan (List Char)
  | 0 => Scan.refuse .openQuotes
  | fuel + 1 => do
    Scan.need 4
    let c ← get
    if c.atDocumentMark then Scan.refuse .markInQuotes
    if c.rest.isEmpty then Scan.refuse .openQuotes
    let (text, escapedBreak) ← quotedWord quote text (fuel + 1)
    Scan.need 1
    if (← get).sees quote then
      Scan.skip
      return text.reverse
    else
      let g ← gapFrom none (if escapedBreak then .afterEscapedBreak else .empty) (fuel + 1)
      quotedFrom quote (g.text.reverse ++ text) fuel

/-- Reads a quoted scalar that begins here, in a text of some size. -/
def quotedScalar (quote : Char) (size : Nat) : Scan (List Char) := do
  Scan.skip
  quotedFrom quote [] (size + 1)

/-! ### Block scalars -/

/-- What becomes of the line ends at the end of a block scalar: one stays, all, or none. -/
inductive Chomping where
  | clip
  | keep
  | strip
  deriving Repr, DecidableEq, Inhabited

/-- The chomping that a sign stands for. -/
def chomping? : Char → Option Chomping
  | '+' => some .keep
  | '-' => some .strip
  | _ => none

/-- Reads a sign for chomping, if there is one. -/
def readChomping : Scan Chomping := do
  match (← get).rest.head?.bind chomping? with
  | some k =>
    Scan.skip
    return k
  | none => return .clip

/-- Reads a digit for the indent, if there is one. No digit counts as 0, which cannot be written. -/
def readIncrement : Scan Nat := do
  match (← get).rest with
  | d :: _ =>
    Scan.check (d != '0') .zeroIndent
    if d.isDigit then
      Scan.skip
      return d.toNat - '0'.toNat
    else return 0
  | [] => return 0

/-- Reads the signs for chomping and for the indent, in any order. -/
def readHeader : Scan (Chomping × Nat) := do
  Scan.need 1
  match ← readChomping with
  | .clip =>
    let n ← readIncrement
    if n = 0 then return (.clip, 0)
    Scan.need 1
    return (← readChomping, n)
  | k =>
    Scan.need 1
    return (k, ← readIncrement)

/-- Line ends and indents between the lines of a block scalar: the line ends, and the column of the
deepest indent. Indent 0 is one that is not known yet. There are no more lines than characters. -/
def blockGapFrom (indent : Nat) (breaks : List Char) (deepest : Nat) :
    Nat → Scan (List Char × Nat)
  | 0 => return (breaks, deepest)
  | fuel + 1 => do
    let c ← get
    let inIndent := indent = 0 || c.column < indent
    if c.sees ' ' && inIndent then
      Scan.skip
      Scan.need 1
      blockGapFrom indent breaks deepest fuel
    else
      let deepest := max deepest c.column
      if c.sees '\t' && inIndent then Scan.refuse .tabInBlock
      if c.atBreak then
        let text ← Scan.takeBreak
        Scan.need 1
        blockGapFrom indent (breaks ++ text) deepest fuel
      else return (breaks, deepest)

/-- Reads what stands between the lines of a block scalar in a text of some size. -/
def blockGap (indent size : Nat) : Scan (List Char × Nat) := do
  Scan.need 1
  blockGapFrom indent [] 0 (2 * size + 1)

/-- How the line end before a line of a block scalar is read. -/
def lineJoint (literal blankBefore blank : Bool) (last more : List Char) : List Char :=
  if !literal && !blankBefore && !blank && last = ['\n'] then
    if more.isEmpty then [' '] else more
  else last ++ more

/-- Reads the lines of a block scalar at an indent, given the text so far in reverse, whether its
last line begins with a blank, that line's end, and the further line ends. There are no more lines
than characters. -/
def blockLines (literal : Bool) (chomping : Chomping) (indent size : Nat) (text : List Char)
    (blankBefore : Bool) (last more : List Char) : Nat → Scan (List Char)
  | 0 => return text.reverse
  | fuel + 1 => do
    let c ← get
    if c.column = indent && !c.rest.isEmpty then
      let blank := c.atBlank
      let line ← Scan.takeWhile (!isBreak ·)
      let text := line.reverse ++ (lineJoint literal blankBefore blank last more).reverse ++ text
      let last ← Scan.takeBreak
      let (more, _) ← blockGap indent size
      blockLines literal chomping indent size text blank last more fuel
    else
      let last := if chomping = .strip then [] else last
      let more := if chomping = .keep then more else []
      return text.reverse ++ last ++ more

/-- Reads a block scalar that begins here, in a text of some size. Where its head gives no indent,
its first line does, but at least the least column. -/
def blockScalar (literal : Bool) (least size : Nat) : Scan (List Char) := do
  Scan.skip
  let (chomping, increment) ← readHeader
  Scan.skipLine
  let given := if increment = 0 then 0 else least - 1 + increment
  let (more, deepest) ← blockGap given size
  let indent := if given = 0 then max deepest (max least 1) else given
  Scan.need 1
  blockLines literal chomping indent size [] false [] more (size + 1)

end Pathwise.Yaml
