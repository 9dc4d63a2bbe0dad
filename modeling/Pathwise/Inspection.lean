import Pathwise.Profile.Basic
import Pathwise.Report.Render

/-!
# Inspecting a path

What the analysis of one path found: the domains of its inputs, the layers of its constraints, and
its memory accesses and transformations.
-/

namespace Pathwise

open Document (field fieldUnless ofFields)
open Pathwise.Text

/-- An input and its domain. -/
structure InputInfo where
  name : String
  width : Nat
  domain : String
  deriving Repr, DecidableEq, Inhabited

/-- A constraint and its layers. -/
structure ConstraintInfo where
  layers : String
  text : String
  deriving Repr, DecidableEq, Inhabited

/-- What the analysis of a path found. -/
structure Inspection where
  name : String
  index : Int
  fingerprint : String
  output : String
  inputs : List InputInfo
  constraints : List ConstraintInfo
  accesses : List String
  transformations : List String
  unclassified : Nat
  deriving Repr, DecidableEq, Inhabited

/-- What the analysis of a path found. -/
def Profile.inspect (p : Profile) : Inspection where
  name := p.path.name
  index := p.path.index
  fingerprint := p.fingerprintText
  output := p.path.output.shown
  inputs := (p.path.inputs.zip p.domains).map fun (v, d) => ⟨v.name, v.width, d.text⟩
  constraints := p.path.constraints.map fun c => ⟨c.term.layers.text, c.text⟩
  accesses := p.accesses.map (·.text)
  transformations := p.transformations.map (·.text)
  unclassified := p.unclassified.length

namespace Inspection

/-! ### Documents -/

/-- An input as a document. -/
def inputDocument (i : InputInfo) : Document :=
  ofFields [field "name" (.text i.name), field "width" (.int i.width),
    field "domain" (.text i.domain)]

/-- A constraint as a document. -/
def constraintDocument (c : ConstraintInfo) : Document :=
  ofFields [field "layers" (.text c.layers), field "text" (.text c.text)]

/-- An inspection as a document. -/
def toDocument (i : Inspection) : Document :=
  ofFields [field "name" (.text i.name), field "index" (.int i.index),
    field "fingerprint" (.text i.fingerprint),
    fieldUnless (i.output == "") "output" (.text i.output),
    field "inputs" (.listOrAbsent inputDocument i.inputs),
    field "constraints" (.listOrAbsent constraintDocument i.constraints),
    fieldUnless i.accesses.isEmpty "memory" (.list (i.accesses.map .text)),
    fieldUnless i.transformations.isEmpty "transforms" (.list (i.transformations.map .text)),
    fieldUnless (i.unclassified == 0) "unclassified" (.int i.unclassified)]

/-! ### Text -/

/-- A line with a title. -/
def titled (colours : Bool) (title rest : String) : String :=
  Colour.cyan.paint colours title ++ " " ++ rest ++ "\n"

/-- A title with an empty line above it. -/
def sectionTitle (colours : Bool) (title : String) : String :=
  "\n" ++ Colour.cyan.paint colours title ++ "\n"

/-- Things with their numbers, from 0. -/
def numbered {α : Type} (xs : List α) : List (Nat × α) :=
  (List.range xs.length).zip xs

/-- The table of the inputs. -/
def inputTable (i : Inspection) : Table where
  wrapped := true
  header := ["#", "Name", "Width", "Domain"]
  rows := (numbered i.inputs).map fun (n, v) => [toString n, v.name, toString v.width, v.domain]

/-- The table of the constraints. -/
def constraintTable (i : Inspection) : Table where
  wrapped := false
  header := ["#", "Layers", "Constraint"]
  rows := (numbered i.constraints).map fun (n, c) => [toString n, c.layers, c.text]

/-- The lines on memory accesses. -/
def accessLines (colours : Bool) (i : Inspection) : String :=
  if i.accesses.isEmpty then ""
  else
    sectionTitle colours "Memory accesses" ++
      String.join ((numbered i.accesses).map fun (n, a) =>
        "  " ++ padLeft 2 ' ' (toString n) ++ "  " ++ a ++ "\n")

/-- The lines on transformations. -/
def transformationLines (colours : Bool) (i : Inspection) : String :=
  if i.transformations.isEmpty then ""
  else
    sectionTitle colours "Transformations" ++
      String.join (i.transformations.map fun t => "  " ++ t ++ "\n")

/-- The line on constraints with operators that are not known. -/
def unclassifiedLine (colours : Bool) (i : Inspection) : String :=
  if i.unclassified = 0 then ""
  else
    "\n" ++ Colour.yellow.paint colours
      (toString i.unclassified ++ " constraint(s) use operators outside the known grammar") ++ "\n"

/-- An inspection as text. -/
def text (colours : Bool) (i : Inspection) : String :=
  titled colours "Path:" (i.name ++ " (index " ++ toString i.index ++ ")") ++
    titled colours "Fingerprint:" i.fingerprint ++
    (if i.output = "" then "" else titled colours "Output:" i.output) ++
    sectionTitle colours "Inputs" ++ i.inputTable.text ++
    sectionTitle colours "Constraints" ++ i.constraintTable.text ++
    i.accessLines colours ++ i.transformationLines colours ++ i.unclassifiedLine colours

/-- An inspection in a format. There are no comma-separated values of it, so these are text. -/
def render (colours : Bool) (i : Inspection) : Format → Except RenderError String
  | .json => i.toDocument.jsonText.mapError .encode
  | .yaml => .ok (Yaml.document i.toDocument)
  | .text | .csv => .ok (i.text colours)

end Inspection

end Pathwise
