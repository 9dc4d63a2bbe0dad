import Pathwise.Text.Numeral
import Pathwise.Text.Wrap

/-!
# Tables

A table is drawn with borders of `+`, `-` and `|`. A cell can have several lines. Headers are
centred, numbers stand at the right of their column and all else at the left.

* **Colour codes** take no columns.
* **Wrapping**: a table may limit its columns to 30, unless a word is wider than that.
* **Short cells** beside longer ones are filled with lines of two spaces, also where the column is
  narrower.
-/

namespace Pathwise.Text

/-! ### Colour codes -/

/-- How many of the characters belong to the rest of a colour code, of which a group of `digits`
digits has been read. A code without any group is complete at once. -/
def codeRest? (digits : Nat) (fresh : Bool) : List Char → Option Nat
  | [] => none
  | c :: cs =>
    if isDigit c then
      if digits < 3 then (codeRest? (digits + 1) false cs).map (· + 1) else none
    else if c = ';' then
      if 0 < digits then (codeRest? 0 false cs).map (· + 1) else none
    else if c = 'm' ∨ c = '|' ∨ c = 'K' then
      if fresh || 0 < digits then some 1 else none
    else none

/-- How many characters the colour code at the start of a text has. -/
def codeLength? : List Char → Option Nat
  | c :: '[' :: cs => if c.toNat = 0x1B then (codeRest? 0 true cs).map (· + 2) else none
  | _ => none

/-- The text without its first `skip` characters and without colour codes. -/
def withoutCodesFrom : Nat → List Char → List Char
  | _, [] => []
  | skip + 1, _ :: cs => withoutCodesFrom skip cs
  | 0, c :: cs =>
    match codeLength? (c :: cs) with
    | some n => withoutCodesFrom (n - 1) cs
    | none => c :: withoutCodesFrom 0 cs

/-- The columns that a text takes where colour codes are shown as colours. -/
def shownWidth (cs : List Char) : Nat :=
  width (withoutCodesFrom 0 cs)

/-! ### Cells -/

/-- Whether a text is a whole number: digits, or one to three of them and then groups of three after
a comma each. -/
def isWhole (cs : List Char) : Bool :=
  (!cs.isEmpty && cs.all isDigit) ||
    match cs.splitOn ',' with
    | [] => false
    | g :: gs =>
      (1 ≤ g.length && g.length ≤ 3 && g.all isDigit) &&
        gs.all fun h => h.length == 3 && h.all isDigit

/-- Whether a text is a decimal number, maybe with commas between thousands. -/
def isDecimal (cs : List Char) : Bool :=
  let cs := match cs with
    | '-' :: ds => ds
    | ds => ds
  match cut? (· == '.') cs with
  | none => isWhole cs
  | some (whole, fraction) => isWhole whole && !fraction.isEmpty && fraction.all isDigit

/-- A text at the left of a column. -/
def atLeft (columns : Nat) (cs : List Char) : List Char :=
  cs ++ List.replicate (columns - shownWidth cs) ' '

/-- A text at the right of a column. -/
def atRight (columns : Nat) (cs : List Char) : List Char :=
  List.replicate (columns - shownWidth cs) ' ' ++ cs

/-- A text in the middle of a column. An odd space goes to the right. -/
def atCentre (columns : Nat) (cs : List Char) : List Char :=
  let gap := columns - shownWidth cs
  List.replicate (gap / 2) ' ' ++ cs ++ List.replicate (gap - gap / 2) ' '

/-- A line of a cell in its column: a number at the right, all else at the left. -/
def aligned (columns : Nat) (cs : List Char) : List Char :=
  if isDecimal (trimChars cs) then atRight columns cs else atLeft columns cs

/-! ### Tables -/

/-- A table with a header, and a flag that says whether its cells are wrapped. -/
structure Table where
  wrapped : Bool
  header : List String
  rows : List (List String)
  deriving Repr, Inhabited

namespace Table

/-- The columns that a wrapped cell may take. -/
def cellLimit : Nat := 30

/-- A cell as its lines, with the columns that it asks for. -/
structure Cell where
  lines : List (List Char)
  columns : Nat
  deriving Repr, Inhabited

/-- A cell of a text. The lines of a wrapped cell are laid out anew as one paragraph, which is no
wider than the widest of them. -/
def cellOf (wrapped : Bool) (s : String) : Cell :=
  let ls := Text.lines s.toList
  if wrapped then
    let limit := min cellLimit (widest shownWidth ls)
    let laidOut := wrap limit (joined [' '] ls)
    ⟨laidOut, max limit (widest shownWidth laidOut)⟩
  else ⟨ls, widest shownWidth ls⟩

/-- The greater of two numbers at each place, where a list that ends counts as zeros. -/
def maxEach : List Nat → List Nat → List Nat
  | [], ys => ys
  | xs, [] => xs
  | x :: xs, y :: ys => max x y :: maxEach xs ys

/-- The widths of the columns of some rows of cells. -/
def columnsOf (rows : List (List Cell)) : List Nat :=
  rows.foldl (fun ws cells => maxEach ws (cells.map (·.columns))) []

/-- A border across a table. -/
def border (columns : List Nat) : String :=
  columns.foldl (fun s n => s ++ repeated (n + 2) '-' ++ "+") "+" ++ "\n"

/-- A line of a row: in each cell the line of an index, laid out in its column. -/
def rowLine (layout : Nat → List Char → List Char) (columns : List Nat) (cells : List Cell)
    (i : Nat) : String :=
  (columns.zip cells).foldl
    (fun s (n, cell) => s ++ " " ++ String.ofList (layout n (cell.lines.getD i [' ', ' '])) ++ " |")
    "|" ++ "\n"

/-- The lines of a row. -/
def rowText (layout : Nat → List Char → List Char) (columns : List Nat) (cells : List Cell) :
    String :=
  let height := (cells.map (·.lines.length)).foldl max 0
  (List.range height).foldl (fun s i => s ++ rowLine layout columns cells i) ""

/-- The text of a table. -/
def text (t : Table) : String :=
  let header := t.header.map (cellOf t.wrapped)
  let rows := t.rows.map (·.map (cellOf t.wrapped))
  let columns := columnsOf (header :: rows)
  border columns ++ rowText atCentre columns header ++ border columns ++
    rows.foldl (fun s cells => s ++ rowText aligned columns cells) "" ++ border columns

end Table

end Pathwise.Text
