/-!
# Colour

Text for a terminal can be set in a colour by codes before and after it.
-/

namespace Pathwise.Text

/-- The ways in which text is set off. -/
inductive Colour where
  | green
  | red
  | yellow
  | cyan
  | faint
  deriving Repr, DecidableEq, Inhabited

namespace Colour

/-- The codes that begin a colour. All but the faint one are bold. -/
def codes : Colour → String
  | green => "32;1"
  | red => "31;1"
  | yellow => "33;1"
  | cyan => "36;1"
  | faint => "2"

/-- The codes that end a colour. -/
def resets : Colour → String
  | faint => "22"
  | _ => "0;22"

/-- A text in a colour, or as it is if there are no colours. -/
def paint (colours : Bool) (c : Colour) (s : String) : String :=
  if colours then "\x1b[" ++ c.codes ++ "m" ++ s ++ "\x1b[" ++ c.resets ++ "m" else s

end Colour

end Pathwise.Text
