import Pathwise.Decimal.Binary
import Pathwise.Report.Basic
import Pathwise.Text.Colour
import Pathwise.Text.Table

/-!
# Reports as text

A heading with the programs and the verdict, a table of the pairs, the counts, the files that could
not be read, and a last line with what identifies the report.
-/

namespace Pathwise

open Pathwise.Text

/-- The colour of a verdict. -/
def Verdict.colour : Verdict → Colour
  | equivalent => .green
  | notEquivalent => .red
  | unknown => .yellow

/-- A verdict in its colour. -/
def Verdict.shown (colours : Bool) (v : Verdict) : String :=
  v.colour.paint colours v.name

/-- The colour of a verdict on programs. -/
def ProgramVerdict.colour : ProgramVerdict → Colour
  | equivalent => .green
  | notEquivalent => .red
  | partiallyEquivalent => .yellow

/-- A verdict on programs in its colour, in capitals. -/
def ProgramVerdict.shown (colours : Bool) (v : ProgramVerdict) : String :=
  let words := v.name.toList.map fun c => if c = '_' then ' ' else c
  v.colour.paint colours (upper (String.ofList words))

/-- How a table refers to a path, if there is one. -/
def PathRef.label : Option PathRef → String
  | none => "-"
  | some r => "#" ++ toString r.index ++ " " ++ r.name

namespace PairResult

/-- The cell for a layer. That for memory has the similarity beside the verdict. -/
def layerCell (colours : Bool) (r : PairResult) (l : Layer) : String :=
  if r.unmatched then "-"
  else
    let result := r.result.layers.get l
    let shown := result.verdict.shown colours
    if l = .memory then shown ++ " " ++ Decimal.fixed 2 result.score else shown

/-- The cells of a row. -/
def cells (colours : Bool) (r : PairResult) : List String :=
  [PathRef.label r.a, PathRef.label r.b, r.result.verdict.shown colours,
    Decimal.fixed 2 r.result.confidence] ++
    Layer.all.map (r.layerCell colours) ++ [String.intercalate "; " r.result.notes]

end PairResult

/-- The line about a file that could not be read. -/
def FileError.shown (e : FileError) : String :=
  let place := if e.line > 0 then ":" ++ toString e.line else ""
  "  [" ++ e.side ++ "] " ++ e.file ++ place ++ ": " ++ e.message ++ "\n"

/-- The line of counts. -/
def Summary.shown (s : Summary) : String :=
  toString s.pairs ++ " pairs: " ++ toString s.equivalentPairs ++ " equivalent, " ++
    toString s.partialPairs ++ " partial, " ++ toString s.notEquivalentPairs ++
    " not equivalent; " ++ toString s.unmatchedCount ++ " unmatched (A " ++
    toString s.unmatchedA ++ ", B " ++ toString s.unmatchedB ++ "); mean confidence " ++
    Decimal.fixed 2 s.meanConfidence ++ "\n"

namespace Report

/-- A number of paths. -/
def pathCount (n : Int) : String :=
  " (" ++ toString n ++ " paths)"

/-- The lines above the table. -/
def heading (colours : Bool) (r : Report) : String :=
  Colour.cyan.paint colours "Programs:" ++ " " ++ r.programA ++ pathCount r.pathsA ++ " vs " ++
    r.programB ++ pathCount r.pathsB ++ "\n" ++
    Colour.cyan.paint colours "Verdict: " ++ " " ++ r.summary.verdict.shown colours ++ "\n" ++
    if r.summary.incomplete then
      Colour.yellow.paint colours "Comparison was interrupted; the verdict is incomplete." ++ "\n"
    else ""

/-- The table of the pairs. -/
def table (colours : Bool) (r : Report) : Table where
  wrapped := false
  header := ["A", "B", "Verdict", "Conf", "Control flow", "Memory", "Transform", "Notes"]
  rows := r.pairs.map (·.cells colours)

/-- The files that could not be read. -/
def excludedFiles (colours : Bool) (r : Report) : String :=
  if r.fileErrors.isEmpty then ""
  else
    let title := "Excluded files (" ++ toString r.fileErrors.length ++ "):"
    "\n" ++ Colour.cyan.paint colours title ++ "\n" ++
      String.join (r.fileErrors.map FileError.shown)

/-- What the last line says, after an empty line. -/
def signature (r : Report) : String :=
  "\nreport " ++ r.id ++ ", policy " ++ r.addressPolicy ++ ", oracle " ++ r.oracle ++ ", " ++
    r.duration.text

/-- A report as text. -/
def text (colours : Bool) (r : Report) : String :=
  r.heading colours ++ "\n" ++ (r.table colours).text ++ "\n" ++ r.summary.shown ++
    r.excludedFiles colours ++ Colour.faint.paint colours r.signature ++ "\n"

end Report

end Pathwise
