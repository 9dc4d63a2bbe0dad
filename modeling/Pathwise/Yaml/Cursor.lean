import Pathwise.Text.Blank
import Pathwise.Yaml.Character
import Pathwise.Yaml.Fault

/-!
# Places in a YAML text

A cursor is a place in a text: what follows it, and where it is. Lines and columns count from 0.

A text is read in **portions** of 512 bytes, and no sooner than it is needed, so a character that
must not occur is noticed when its portion is read. What has been read is kept in a **window**. If
more is needed than the window has, it is moved to the cursor, and then extended by portions, or by
a mark for the end after the last one. It matters whether the window begins with a byte order mark.
-/

namespace Pathwise.Yaml

/-- Where a character stands: how many come before it, its line and its column. -/
structure Mark where
  index : Nat
  line : Nat
  column : Nat
  deriving Repr, DecidableEq, Inhabited

/-! ### Portions -/

/-- How many characters a portion has, and whether they may all occur. -/
structure Portion where
  length : Nat
  allowed : Bool
  deriving Repr, DecidableEq, Inhabited

/-- How many bytes are read at once. -/
def portionSize : Nat := 512

/-- The portions of a text, the first of which has begun and has room for some more bytes. A
character that does not fit is left to the next portion. -/
def portionsFrom (p : Portion) (room : Nat) : List Char → List Portion
  | [] => [p]
  | c :: cs =>
    if c.utf8Size ≤ room then
      portionsFrom ⟨p.length + 1, p.allowed && isAllowed c⟩ (room - c.utf8Size) cs
    else p :: portionsFrom ⟨1, isAllowed c⟩ (portionSize - c.utf8Size) cs

/-! ### Cursors -/

/-- A place in a text: what follows it, where it is, how much of what follows is in the window,
whether the window begins with a byte order mark, and the portions that have not been read. -/
structure Cursor where
  rest : List Char
  mark : Mark
  ready : Nat
  marked : Bool
  unread : List Portion
  deriving Repr, Inhabited

namespace Cursor

/-- The start of a text. A byte order mark there does not count, but takes up its bytes. -/
def start (cs : List Char) : Cursor :=
  match cs with
  | c :: rest =>
    if c = byteOrderMark then
      ⟨rest, ⟨0, 0, 0⟩, 0, false, portionsFrom ⟨0, true⟩ (portionSize - c.utf8Size) rest⟩
    else ⟨cs, ⟨0, 0, 0⟩, 0, false, portionsFrom ⟨0, true⟩ portionSize cs⟩
  | [] => ⟨[], ⟨0, 0, 0⟩, 0, false, []⟩

/-- Reads portions until the window has so many characters from the cursor on. At the end of the
text a mark for it is added. -/
def fill (needed ready : Nat) : List Portion → Except Fault (Nat × List Portion)
  | [] => .ok (ready + 1, [])
  | p :: ps =>
    if !p.allowed then .error (.anywhere .forbiddenCharacter)
    else if needed ≤ ready + p.length then .ok (ready + p.length, ps)
    else fill needed (ready + p.length) ps

/-- Makes sure that the window has so many characters from the cursor on, as far as there are. -/
def need (needed : Nat) (c : Cursor) : Except Fault Cursor :=
  if needed ≤ c.ready then .ok c
  else do
    let (ready, unread) ← fill needed c.ready c.unread
    return { c with ready, unread, marked := c.rest.head? == some byteOrderMark }

/-- The place behind the next character, which does not end a line. -/
def skip (c : Cursor) : Cursor :=
  { c with
    rest := c.rest.drop 1
    mark := ⟨c.mark.index + 1, c.mark.line, c.mark.column + 1⟩
    ready := c.ready - 1 }

/-- The place some characters further on. -/
def skips : Nat → Cursor → Cursor
  | 0, c => c
  | n + 1, c => skips n c.skip

/-- How many characters the line end here has. -/
def breakLength : List Char → Nat
  | '\r' :: '\n' :: _ => 2
  | c :: _ => if isBreak c then 1 else 0
  | [] => 0

/-- The start of the next line, if a line ends here. -/
def skipBreak (c : Cursor) : Cursor :=
  match breakLength c.rest with
  | 0 => c
  | n =>
    { c with
      rest := c.rest.drop n
      mark := ⟨c.mark.index + n, c.mark.line + 1, 0⟩
      ready := c.ready - n }

/-- What the line end here means: a line feed, but line and paragraph separators stay. -/
def breakText (c : Cursor) : List Char :=
  match c.rest with
  | d :: _ => if !isBreak d then [] else if 0x2028 ≤ d.toNat then [d] else ['\n']
  | [] => []

/-- The column of the next character. -/
def column (c : Cursor) : Nat :=
  c.mark.column

/-- Whether a character follows. -/
def sees (c : Cursor) (d : Char) : Bool :=
  c.rest.head? == some d

/-- Whether a blank follows. -/
def atBlank (c : Cursor) : Bool :=
  c.rest.head?.any isBlank

/-- Whether a line ends here. -/
def atBreak (c : Cursor) : Bool :=
  c.rest.head?.any isBreak

/-- Whether a word ends here. -/
def atWordEnd (c : Cursor) : Bool :=
  endsWord c.rest

/-- Whether a mark between documents stands here. -/
def atDocumentMark (c : Cursor) : Bool :=
  c.column == 0 &&
    (Text.startsWith ['-', '-', '-'] c.rest || Text.startsWith ['.', '.', '.'] c.rest) &&
    endsWord (c.rest.drop 3)

/-- A problem that was found here. On the first line the line is not told. -/
def fault (c : Cursor) (p : Problem) : Fault :=
  ⟨if c.mark.line = 0 then 0 else c.mark.line + 1, p⟩

end Cursor

/-! ### Scanning -/

/-- Scans something from a cursor on. -/
abbrev Scan := StateT Cursor (Except Fault)

namespace Scan

variable {α : Type}

/-- Makes sure that so many characters have been read. -/
def need (n : Nat) : Scan Unit := do
  set (← (← get).need n)

/-- Moves on by one character. -/
def skip : Scan Unit :=
  modify Cursor.skip

/-- Moves on by some characters. -/
def skips (n : Nat) : Scan Unit :=
  modify (Cursor.skips n)

/-- Refuses the text here. -/
def refuse (p : Problem) : Scan α := do
  throw ((← get).fault p)

/-- Refuses the text here, unless something holds. -/
def check (b : Bool) (p : Problem) : Scan Unit :=
  if b then pure () else refuse p

/-- Takes characters of a class. Given are those taken so far, in reverse, and the text from the
cursor on. After each character the next one is made sure of. -/
def takeFrom (p : Char → Bool) (taken : List Char) : List Char → Scan (List Char)
  | [] => return taken.reverse
  | d :: ds =>
    if p d then do
      skip
      need 1
      takeFrom p (d :: taken) ds
    else return taken.reverse

/-- Takes the characters from here on that belong to a class. -/
def takeWhile (p : Char → Bool) : Scan (List Char) := do
  takeFrom p [] (← get).rest

/-- Skips the characters from here on that belong to a class. -/
def skipWhile (p : Char → Bool) : Scan Unit := do
  let _ ← takeWhile p

/-- Takes a line end. -/
def takeBreak : Scan (List Char) := do
  need 2
  let text := (← get).breakText
  modify Cursor.skipBreak
  return text

/-- Skips a comment, if one begins here. -/
def skipComment : Scan Unit := do
  if (← get).sees '#' then skipWhile (!isBreak ·)

/-- Skips the rest of a line, in which only blanks and a comment may stand. -/
def skipLine : Scan Unit := do
  need 1
  skipWhile isBlank
  skipComment
  let c ← get
  check (c.rest.isEmpty || c.atBreak) .missingLineEnd
  if c.atBreak then
    let _ ← takeBreak

end Scan

end Pathwise.Yaml
