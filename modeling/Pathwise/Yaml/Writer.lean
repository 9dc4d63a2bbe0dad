import Pathwise.Document
import Pathwise.Yaml.Quoting

/-!
# Writing YAML

Documents are written in block style with an indent of two. The items of a list stand at the column
of the key that they belong to; an empty or absent list is written as `[]`.
-/

namespace Pathwise.Yaml

/-- Numbers are positional from a ten thousandth up to below a million. -/
def numberStyle : Decimal.Style where
  low := -4
  high := 6
  width := 2
  negativeWidth := 2
  nan := ".nan"
  plusInfinity := ".inf"
  minusInfinity := "-.inf"

/-- Puts a line end behind a text, unless it has one. -/
def ended (s : String) : String :=
  match s.toList.getLast? with
  | none => "\n"
  | some c => if isBreak c then s else s ++ "\n"

mutual

/-- A value that follows a mark such as `key:` or `-`, which ends before a column, with its line
end. Lists and the rest of what is on further lines stand at the indent `outer`, records and the
rest of texts two columns further. The fields of a record begin on the line of the mark if it is
that of an item. -/
def after (outer column : Nat) (isItem : Bool) : Document → String
  | .null => " null\n"
  | .bool b => if b then " true\n" else " false\n"
  | .int n => " " ++ toString n ++ "\n"
  | .float x => " " ++ numberStyle.write x ++ "\n"
  | .text s => " " ++ ended (writeText (outer + 2) (column + 1) s)
  | .instant t => " " ++ t.text ++ "\n"
  | .duration d => " " ++ ended (writeText (outer + 2) (column + 1) d.text)
  | .absentList => " []\n"
  | .list [] => " []\n"
  | .list (d :: ds) =>
    if isItem then
      " -" ++ after (outer + 2) (outer + 3) true d ++ items (outer + 2) ds
    else "\n" ++ items outer (d :: ds)
  | .record [] => " \x7b\x7d\n"
  | .record ((name, d) :: ds) =>
    let indent := outer + 2
    let lead := if isItem then " " else newLine indent
    lead ++ name ++ ":" ++ after indent (indent + name.length + 1) false d ++ fields indent ds

/-- The items of a list at an indent. -/
def items (indent : Nat) : List Document → String
  | [] => ""
  | d :: ds =>
    Text.repeated indent ' ' ++ "-" ++ after indent (indent + 1) true d ++ items indent ds

/-- The fields of a record at an indent. -/
def fields (indent : Nat) : List (String × Document) → String
  | [] => ""
  | (name, d) :: ds =>
    Text.repeated indent ' ' ++ name ++ ":" ++
      after indent (indent + name.length + 1) false d ++ fields indent ds

end

/-- A record as a YAML document. -/
def document (d : Document) : String :=
  match d with
  | .record [] => "\x7b\x7d\n"
  | .record fs => fields 0 fs
  | .list [] | .absentList => "[]\n"
  | .list ds => items 0 ds
  | d => String.ofList ((after 0 0 true d).toList.drop 1)

end Pathwise.Yaml
