import Pathwise.Text.Blank
import Pathwise.Text.Width

/-!
# Wrapping

Words are laid out on lines of a limited width so that the lines are evenly filled: a layout costs
the square of the space left over on each line but the last. Where two layouts cost the same, the
one with the shorter first line is taken.
-/

namespace Pathwise.Text

/-- The words of a text, which single spaces divide. Two spaces in a row have an empty word between
them. -/
def spacedWords : List Char → List (List Char)
  | [] => [[]]
  | c :: cs =>
    if c = ' ' then [] :: spacedWords cs
    else
      match spacedWords cs with
      | [] => [[c]]
      | w :: ws => (c :: w) :: ws

/-- Texts with a separator between any two. -/
def joined (separator : List Char) : List (List Char) → List Char
  | [] => []
  | [s] => s
  | s :: t :: ss => s ++ separator ++ joined separator (t :: ss)

/-- The widest of some texts. -/
def widest (measure : List Char → Nat) (ls : List (List Char)) : Nat :=
  (ls.map measure).foldl max 0

namespace Wrap

/-- A layout of words on lines, with its cost. -/
structure Layout where
  cost : Nat
  lines : List (List (List Char))
  deriving Repr, Inhabited

/-- What is added to the cost of a line that is too long. -/
def penalty : Nat := 100000

/-- The cost of a line of a width. -/
def lineCost (limit width : Nat) : Nat :=
  let slack := if width ≤ limit then limit - width else width - limit
  slack * slack + if width > limit then penalty else 0

/-- The cheaper of two layouts, the first unless the second costs less. -/
def cheaper (best : Option Layout) (l : Layout) : Layout :=
  match best with
  | none => l
  | some b => if l.cost < b.cost then l else b

/-- The best layout whose first line holds `line`, of a width, and maybe some of the words that
follow. There is a layout for the words from each of them on. -/
def breakFirst (limit : Nat) (best : Option Layout) (line : List (List Char)) (size : Nat) :
    List (List Char) → List Layout → Option Layout
  | w :: ws, l :: ls =>
    let best := cheaper best ⟨lineCost limit size + l.cost, line :: l.lines⟩
    breakFirst limit (some best) (line ++ [w]) (size + 1 + width w) ws ls
  | _, _ => best

/-- The best layouts of some words, and of the words from each of them on. -/
def layouts (limit : Nat) : List (List Char) → List Layout
  | [] => []
  | w :: ws =>
    let later := layouts limit ws
    let oneLine : Layout := ⟨0, [w :: ws]⟩
    let best :=
      if (ws.map fun v => 1 + width v).sum + width w ≤ limit then oneLine
      else (breakFirst limit none [w] (width w) ws later).getD oneLine
    best :: later

end Wrap

/-- A text on lines of at most `limit` columns, or of the widest word if that is wider. -/
def wrap (limit : Nat) (cs : List Char) : List (List Char) :=
  let ws := spacedWords cs
  match Wrap.layouts (max limit (widest width ws)) ws with
  | [] => []
  | l :: _ => l.lines.map (joined [' '])

end Pathwise.Text
