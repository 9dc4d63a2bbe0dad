import Pathwise.Text.Numeral

/-!
# The text of a path file

A path file is SMT-LIB text in which comment lines carry metadata: the index of the path, and the
output that the program printed. Before the text is read as S-expressions, comment lines and the
lines of a recorded output are emptied. Lines keep their numbers that way.

* A comment line is a line whose first visible character is a semicolon. Its metadata, if it has
  any, are a key and a value with a colon between them, an ASCII one or a full-width one.
* An output key with a value records that value. With no value it records all that follows, line by
  line, up to the next comment line with a known key.
-/

namespace Pathwise.Path

/-- What the comment lines of a path file say. `recording` holds while the lines that follow belong
to the output. -/
structure Metadata where
  index : Option Nat
  output : List (List Char)
  recording : Bool
  deriving Repr, DecidableEq, Inhabited

/-- The metadata of an empty file. -/
def Metadata.empty : Metadata :=
  ⟨none, [], false⟩

/-- The keys, in lower case, that introduce the index of a path. -/
def indexKeys : List String :=
  ["path index", "path_index", "path-index", "路径索引"]

/-- The keys, in lower case, that introduce the output of a path. -/
def outputKeys : List String :=
  ["output", "program output", "程序输出"]

/-- Replaces the first full-width colon by an ASCII one. -/
def plainColon : List Char → List Char
  | [] => []
  | c :: cs => if c = '：' then ':' :: cs else c :: plainColon cs

/-- The key, in lower case, and the value of a comment. -/
def keyValue? (comment : List Char) : Option (String × List Char) :=
  (Text.cut? (· == ':') (plainColon comment)).map fun (key, value) =>
    (Text.lower (String.ofList (Text.trimChars key)), Text.trimChars value)

/-- The number at the beginning of a value. -/
def leadingIndex? (value : List Char) : Option Nat :=
  Text.nat63? (value.takeWhile Text.isDigit)

/-- Takes note of a comment, which is given without its semicolon. -/
def Metadata.comment (m : Metadata) (comment : List Char) : Metadata :=
  let plain := if m.recording then { m with output := m.output ++ [comment] } else m
  match keyValue? comment with
  | none => plain
  | some (key, value) =>
    if indexKeys.contains key then
      { m with index := (leadingIndex? value).or m.index, recording := false }
    else if outputKeys.contains key then
      if value.isEmpty then { m with output := [], recording := true }
      else { m with output := [value], recording := false }
    else plain

/-- Takes note of a line, and gives what is left of it to be read as S-expressions. -/
def Metadata.line (m : Metadata) (raw : List Char) : Metadata × List Char :=
  let line := Text.dropEndWhile (· == '\r') raw
  match Text.trimChars line with
  | ';' :: comment => (m.comment (Text.trimChars comment), [])
  | visible =>
    if m.recording then ({ m with output := m.output ++ [visible] }, [])
    else (m, line)

/-- Takes note of lines, and gives what is left of each of them. -/
def Metadata.lines (m : Metadata) : List (List Char) → Metadata × List (List Char)
  | [] => (m, [])
  | l :: ls =>
    let (m', body) := m.line l
    let (m'', bodies) := m'.lines ls
    (m'', body :: bodies)

/-- The lines of a path file without comments and output, and the metadata. -/
def splitSource (src : List Char) : Metadata × List (List Char) :=
  Metadata.empty.lines (Text.lines src)

/-- The text that is read as S-expressions: each line ends with a line feed. -/
def bodyText (body : List (List Char)) : List Char :=
  body.flatMap fun l => l ++ ['\n']

/-- The digits after the last `_path_` in a name that has a digit after it. -/
def indexDigits? : List Char → Option (List Char)
  | [] => none
  | c :: cs =>
    match indexDigits? cs with
    | some ds => some ds
    | none =>
      match Text.after? "_path_".toList (c :: cs) with
      | none => none
      | some rest =>
        let ds := rest.takeWhile Text.isDigit
        if ds.isEmpty then none else some ds

/-- The index of a path according to the name of its file. -/
def nameIndex? (name : String) : Option Nat :=
  (indexDigits? name.toList).bind Text.nat63?

end Pathwise.Path
