import Pathwise.Text.Quoted
import Pathwise.Yaml.Character
import Pathwise.Yaml.Scalar

/-!
# Writing text as YAML

A text is written plainly where it then reads back as that text. Else it is put between quotes, or
on lines of its own.

* **Literal**: a text with a line feed goes on lines of its own, if it has no characters that need
  an escape, and no spaces at line ends.
* **Double quotes**: a text that would mean something else (null, a boolean, a number, a time), and
  one with characters that need an escape. After a byte order mark every character is escaped.
* **Single quotes**: a text with signs that would be taken for structure.
* **Folding**: a line that has come past column 80 is broken at the next space that stands alone.
-/

namespace Pathwise.Yaml

/-! ### Characters -/

/-- The characters that can be written as they are. -/
def isPlainChar (c : Char) : Bool :=
  let n := c.toNat
  n == 0x0A || (0x20 ≤ n && n ≤ 0x7E) || (0xA0 ≤ n && n ≤ 0xFFFD && n != 0xFEFF)

/-! ### Styles -/

/-- How a text is written. -/
inductive Style where
  | plain
  | single
  | double
  | literal
  deriving Repr, DecidableEq, Inhabited

/-- Whether some two neighbours in a text satisfy a relation. -/
def anyPair (p : Char → Char → Bool) : List Char → Bool
  | a :: b :: cs => p a b || anyPair p (b :: cs)
  | _ => false

/-- Whether a text begins with a sign that has a meaning of its own. Some have it only at the end of
the text or before a space. -/
def beginsIndicator (cs : List Char) : Bool :=
  match cs with
  | [] => false
  | c :: rest =>
    ("#,[]\x7b\x7d&*!|>\x27\"%@\x60".toList.contains c) ||
      ((c == '?' || c == ':' || c == '-') && rest.head?.all isBlank) ||
      Text.startsWith "---".toList cs || Text.startsWith "...".toList cs

/-- Whether a text has signs in it that would be taken for structure: a colon at its end or before a
space, or a hash after a space. -/
def hasIndicator (cs : List Char) : Bool :=
  cs.getLast? == some ':' || anyPair (fun a b => a == ':' && isBlank b) cs ||
    anyPair (fun a b => b == '#' && (isBlank a || isBreak a)) cs

/-- Whether a text needs escapes: it has a character that cannot be written as it is, or a space
before a line end. -/
def needsEscape (cs : List Char) : Bool :=
  cs.any (!isPlainChar ·) || anyPair (fun a b => a == ' ' && isBreak b) cs

/-- Whether a text can stand on lines of its own. -/
def fitsLiteral (cs : List Char) : Bool :=
  !needsEscape cs && cs.getLast? != some ' '

/-- Whether a text can stand between single quotes. -/
def fitsSingle (cs : List Char) : Bool :=
  !needsEscape cs && !anyPair (fun a b => isBreak a && b == ' ') cs

/-- Whether a text can stand without quotes. -/
def fitsPlain (cs : List Char) : Bool :=
  fitsSingle cs && !cs.any isBreak && cs.head? != some ' ' && cs.getLast? != some ' ' &&
    !beginsIndicator cs && !hasIndicator cs

/-- Whether a plain scalar means its own text. -/
def meansText (s : String) : Bool :=
  match meaning s with
  | .text => !isSexagesimal s.toList
  | _ => false

/-- The style in which a text is written. -/
def styleOf (s : String) : Style :=
  let cs := s.toList
  if cs.contains '\n' then if fitsLiteral cs then .literal else .double
  else if !meansText s then .double
  else if fitsPlain cs then .plain
  else if fitsSingle cs then .single
  else .double

/-! ### Layout -/

/-- The column past which lines are folded. -/
def foldColumn : Nat := 80

/-- A line end and the indent of the next line. -/
def newLine (indent : Nat) : String :=
  "\n" ++ Text.repeated indent ' '

/-- A plain text from a column on, of which the character before may be a space. -/
def writePlain (indent column : Nat) (spaced : Bool) : List Char → String
  | [] => ""
  | c :: cs =>
    if c = ' ' then
      if !spaced && foldColumn < column && cs.head? != some ' ' then
        newLine indent ++ writePlain indent indent true cs
      else " " ++ writePlain indent (column + 1) true cs
    else c.toString ++ writePlain indent (column + 1) false cs

/-- Whether a line can be folded at a space, given what is behind the space and before it. -/
def foldsQuoted (column : Nat) (spaced first : Bool) (rest : List Char) : Bool :=
  !spaced && foldColumn < column && !first && !rest.isEmpty

/-- The inside of single quotes from a column on. A quote is doubled, and a line end inside is
followed by the indent. -/
def writeSingle (indent column : Nat) (spaced broken first : Bool) : List Char → String
  | [] => ""
  | c :: cs =>
    if c = ' ' then
      if foldsQuoted column spaced first cs && cs.head? != some ' ' then
        newLine indent ++ writeSingle indent indent true broken false cs
      else " " ++ writeSingle indent (column + 1) true broken false cs
    else if isBreak c then c.toString ++ writeSingle indent 0 spaced true false cs
    else
      let lead := if broken then Text.repeated (indent - column) ' ' else ""
      let column := if broken then max indent column else column
      let quote := if c = Char.ofNat 39 then c.toString else ""
      lead ++ quote ++ c.toString ++
        writeSingle indent (column + quote.length + 1) false false false cs

/-- The escapes of one letter. -/
def shortEscapes : List (Nat × Char) :=
  [(0x00, '0'), (0x07, 'a'), (0x08, 'b'), (0x09, 't'), (0x0A, 'n'), (0x0B, 'v'), (0x0C, 'f'),
    (0x0D, 'r'), (0x1B, 'e'), (0x22, '"'), (0x5C, '\\'), (0x85, 'N'), (0xA0, '_'), (0x2028, 'L'),
    (0x2029, 'P')]

/-- An escape. -/
def escaped (c : Char) : String :=
  let n := c.toNat
  let coded (mark : String) (width : Nat) : String := mark ++ Text.upper (Text.hexPadded width n)
  "\\" ++
    match shortEscapes.lookup n with
    | some e => e.toString
    | none =>
      if n ≤ 0xFF then coded "x" 2 else if n ≤ 0xFFFF then coded "u" 4 else coded "U" 8

/-- The inside of double quotes from a column on. With `strict` every character is escaped. -/
def writeDouble (strict : Bool) (indent column : Nat) (spaced first : Bool) : List Char → String
  | [] => ""
  | c :: cs =>
    if strict || !isPlainChar c || isBreak c || c == '"' || c == '\\' then
      let e := escaped c
      e ++ writeDouble strict indent (column + e.length) false false cs
    else if c = ' ' then
      if foldsQuoted column spaced first cs then
        let mark := if cs.head? == some ' ' then "\\" else ""
        newLine indent ++ mark ++ writeDouble strict indent (indent + mark.length) true false cs
      else " " ++ writeDouble strict indent (column + 1) true false cs
    else c.toString ++ writeDouble strict indent (column + 1) false false cs

/-- The lines of a literal text, each with its indent unless it is empty. -/
def writeLiteral (indent : Nat) (broken : Bool) : List Char → String
  | [] => ""
  | c :: cs =>
    if isBreak c then c.toString ++ writeLiteral indent true cs
    else
      (if broken then Text.repeated indent ' ' else "") ++ c.toString ++
        writeLiteral indent false cs

/-- The head of a literal text: a digit if the text begins with a space or a line end, a `-` if it
ends without a line end, and a `+` if it ends with more than one. -/
def literalHead (cs : List Char) : String :=
  let hint := if cs.head?.any (fun c => c == ' ' || isBreak c) then "2" else ""
  let chomp :=
    match cs.reverse with
    | c :: d :: _ => if !isBreak c then "-" else if isBreak d then "+" else ""
    | [c] => if isBreak c then "+" else "-"
    | [] => "-"
  "|" ++ hint ++ chomp

/-- A text that begins at a column. Further lines have the indent. -/
def writeText (indent column : Nat) (s : String) : String :=
  let cs := s.toList
  match styleOf s with
  | .plain => writePlain indent column false cs
  | .single =>
    let quote := (Char.ofNat 39).toString
    quote ++ writeSingle indent (column + 1) false false true cs ++ quote
  | .double =>
    let strict := cs.head? == some byteOrderMark
    "\"" ++ writeDouble strict indent (column + 1) false true cs ++ "\""
  | .literal => literalHead cs ++ "\n" ++ writeLiteral indent true cs

end Pathwise.Yaml
