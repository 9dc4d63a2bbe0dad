import Pathwise.Report.Encoding
import Pathwise.Report.Format
import Pathwise.Report.Text
import Pathwise.Text.Blank
import Pathwise.Yaml.Writer

/-!
# Reports in all formats

Beside the text for a terminal, a report is written as JSON, as YAML and as comma-separated values.
In the latter a field is quoted if it has a comma, a quote or a line end in it, begins with white
space, or is `\.`. Quotes inside are doubled.
-/

namespace Pathwise

/-- A document as indented JSON, with a line end. -/
def Document.jsonText (d : Document) : Except Document.EncodeError String :=
  d.toJson.map fun j => j.indented 0 ++ "\n"

/-! ### Comma-separated values -/

namespace Csv

/-- Whether a field has to be quoted. -/
def needsQuotes (cs : List Char) : Bool :=
  cs == ['\\', '.'] || cs.any (fun c => c == ',' || c == '"' || c == '\r' || c == '\n') ||
    cs.head?.any Text.isBlank

/-- A field as it is written. -/
def field (s : String) : String :=
  let cs := s.toList
  if needsQuotes cs then
    "\"" ++ String.ofList (cs.flatMap fun c => if c = '"' then [c, c] else [c]) ++ "\""
  else s

/-- A line of fields. -/
def line (fields : List String) : String :=
  String.intercalate "," (fields.map field) ++ "\n"

end Csv

namespace PairResult

/-- The names of the fields of a row. -/
def csvHeader : List String :=
  ["a_index", "a_name", "b_index", "b_name", "unmatched", "verdict", "confidence",
    "control_flow", "memory", "memory_similarity", "transform", "timed_out", "notes"]

/-- The fields of a row. -/
def csvFields (r : PairResult) : List String :=
  let index (ref : Option PathRef) : String := (ref.map fun p => toString p.index).getD ""
  let name (ref : Option PathRef) : String := (ref.map (·.name)).getD ""
  let layers := r.result.layers
  [index r.a, name r.a, index r.b, name r.b, toString r.unmatched, r.result.verdict.name,
    Decimal.fixed 4 r.result.confidence, layers.controlFlow.verdict.name,
    layers.memory.verdict.name, Decimal.fixed 4 layers.memory.score,
    layers.transform.verdict.name, toString r.result.timedOut,
    String.intercalate "; " r.result.notes]

end PairResult

/-! ### All formats -/

/-- Why a report cannot be written. -/
inductive RenderError where
  | unknownFormat (name : String)
  | encode (cause : Document.EncodeError)
  deriving Repr, Inhabited

/-- The wording of an error. -/
def RenderError.message : RenderError → String
  | unknownFormat name => Format.unknownMessage name
  | encode e => e.message

namespace Report

/-- A report as comma-separated values. -/
def csv (r : Report) : String :=
  Csv.line PairResult.csvHeader ++ String.join (r.pairs.map fun p => Csv.line p.csvFields)

/-- A report in a format. -/
def render (colours : Bool) (r : Report) : Format → Except RenderError String
  | .text => .ok (r.text colours)
  | .json => r.toDocument.jsonText.mapError .encode
  | .yaml => .ok (Yaml.document r.toDocument)
  | .csv => .ok r.csv

/-- A report in the format with a name. -/
def renderNamed (colours : Bool) (r : Report) (name : String) : Except RenderError String :=
  match Format.ofName? name with
  | some f => r.render colours f
  | none => .error (.unknownFormat name)

end Report

end Pathwise
