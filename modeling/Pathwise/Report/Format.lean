import Pathwise.Text.Blank
import Pathwise.Text.Quoted

/-!
# Formats of reports
-/

namespace Pathwise

/-- The formats in which reports are written. -/
inductive Format where
  | text
  | json
  | yaml
  | csv
  deriving Repr, DecidableEq, Inhabited

namespace Format

/-- All formats. -/
def all : List Format :=
  [text, json, yaml, csv]

/-- The name of a format. -/
def name : Format → String
  | text => "text"
  | json => "json"
  | yaml => "yaml"
  | csv => "csv"

/-- The format with exactly a given name. The empty name stands for text. -/
def ofName? (s : String) : Option Format :=
  if s = "" then some text else all.find? (·.name == s)

/-- The wording for a name that no format has. -/
def unknownMessage (s : String) : String :=
  "unknown report format " ++ Text.quoted s

/-- The wording for a name that no format has in any case. -/
def unreadableMessage (s : String) : String :=
  unknownMessage s ++ " (want text, json, yaml or csv)"

/-- The format with a given name in any case. -/
def parse? (s : String) : Option Format :=
  ofName? (Text.lower s)

end Format

end Pathwise
