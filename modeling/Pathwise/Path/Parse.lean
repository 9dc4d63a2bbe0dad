import Pathwise.Path.Builder
import Pathwise.Path.Source

/-!
# Reading a path file

Puts the parts together: metadata and body, S-expressions, commands. The index of a path comes from
its metadata, or else from the name of its file.
-/

namespace Pathwise.Path

/-- What the commands of a body build, or the line and the cause of a refusal. -/
def build (body : List Char) : Except (Nat × Cause) Builder :=
  match SExpr.readAll body with
  | .error (line, fault) => .error (line, .reading fault)
  | .ok nodes =>
    match (commands nodes).run Builder.empty with
    | .error e => .error e
    | .ok ((), b) => .ok b

/-- The path in a text. The name is that of its file. -/
def parse (src name : String) : Except Refusal Path :=
  let (m, body) := splitSource src.toList
  match build (bodyText body) with
  | .error (line, cause) => .error ⟨name, line, cause⟩
  | .ok b =>
    .ok {
      index :=
        match m.index.or (nameIndex? name) with
        | some n => n
        | none => -1
      name
      source := ""
      declared := b.declared
      memory := b.memory
      constraints := b.constraints
      output := Observed.ofText (String.ofList (['\n'].intercalate m.output)) }

end Pathwise.Path
