import Pathwise.Text.Numeral

/-!
# Observed outputs

A path may record what the program printed on it: an integer, or any other text. Integers are
decimal, or hexadecimal after `0x`, with an optional minus sign in front. The numeral after that
may carry one sign of its own.
-/

namespace Pathwise

/-- The output recorded on a path. -/
inductive Observed where
  | none
  | integer (value : Int)
  | text (value : String)
  deriving Repr, DecidableEq, Inhabited

namespace Observed

/-- Reads an integer after the optional minus sign. -/
def magnitude? : List Char → Option Int
  | '0' :: 'x' :: cs => Text.signed? 16 cs
  | '0' :: 'X' :: cs => Text.signed? 16 cs
  | cs => Text.signed? 10 cs

/-- Reads an integer. -/
def integer? : List Char → Option Int
  | '-' :: cs => (magnitude? cs).map fun n => -n
  | cs => magnitude? cs

/-- The output that a raw text records, once white space is trimmed off. -/
def ofText (raw : String) : Observed :=
  let cs := Text.trimChars raw.toList
  if cs.isEmpty then none
  else
    match integer? cs with
    | some n => integer n
    | Option.none => text (String.ofList cs)

/-- The name of the kind of output. -/
def kind : Observed → String
  | none => "none"
  | integer _ => "integer"
  | text _ => "text"

/-- Whether no output is recorded. -/
def isNone : Observed → Bool
  | none => true
  | _ => false

/-- The output as text, empty if there is none. -/
def shown : Observed → String
  | none => ""
  | integer n => toString n
  | text s => s

/-- Whether both outputs are recorded and differ. -/
def differs (a b : Observed) : Bool :=
  !a.isNone && !b.isNone && a != b

end Observed

end Pathwise
