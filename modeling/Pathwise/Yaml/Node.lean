/-!
# YAML nodes

What a YAML text denotes: scalars, sequences and mappings. A node with an anchor can be referred to
from other places, also from inside itself, so a document keeps those nodes in a list, and a
reference has the place of its node there.
-/

namespace Pathwise.Yaml

/-- A YAML node. A scalar has its tag, which may be empty, and is open if its text tells what it
means. A reference has a number of its own, the name of its anchor, and the place of its node. -/
inductive Node where
  | scalar (text tag : String) (isOpen : Bool)
  | sequence (items : List Node)
  | mapping (entries : List (Node × Node))
  | reference (number : Nat) (name : String) (target : Nat)
  deriving Repr, Inhabited

namespace Node

/-- The node where nothing is written. -/
def nothing : Node :=
  .scalar "" "" true

/-- The tag of merge keys. -/
def mergeTag : String := "tag:yaml.org,2002:merge"

/-- Whether a key says that other mappings are merged in. -/
def isMerge : Node → Bool
  | .scalar text tag isOpen => text == "<<" && (isOpen || tag == mergeTag)
  | _ => false

/-- Whether this is a mapping. -/
def isMapping : Node → Bool
  | .mapping _ => true
  | _ => false

end Node

/-- A document: its node, and the nodes that have anchors. The size bounds how far references can
lead. -/
structure Tree where
  root : Node
  anchored : List Node
  size : Nat
  deriving Repr, Inhabited

end Pathwise.Yaml
