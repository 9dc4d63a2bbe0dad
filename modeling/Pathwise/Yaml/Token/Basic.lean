/-!
# YAML tokens

The pieces that a YAML text is made of. Where a block collection begins, ends, or has a key is not
written but follows from columns and colons; there are tokens for that too.
-/

namespace Pathwise.Yaml

/-- A piece of a text. -/
inductive Token where
  | version (major minor : Nat)
  | handle (name stem : String)
  | documentStart
  | documentEnd
  | streamEnd
  | blockSequence
  | blockMapping
  | blockEnd
  | flowSequence
  | flowSequenceEnd
  | flowMapping
  | flowMappingEnd
  | item
  | comma
  | key
  | value
  | reference (name : String)
  | anchor (name : String)
  | tag (handle suffix : String)
  | scalar (text : String) (plain : Bool)
  deriving Repr, DecidableEq, Inhabited

/-- A token and the line in which it begins. -/
structure Placed where
  token : Token
  line : Nat
  deriving Repr, DecidableEq, Inhabited

end Pathwise.Yaml
