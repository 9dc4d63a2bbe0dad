import Pathwise.Yaml.Node
import Pathwise.Yaml.Token.Stream

/-!
# Reading YAML

Reads the first document of a text: tokens to nodes. What follows that document is not looked at,
besides the token behind it.
-/

namespace Pathwise.Yaml

/-- What a reader knows: the tokens to come, the texts that handles of tags stand for, the places of
anchors by name, the nodes with anchors that are complete, and how many anchors and references there
were. -/
structure Reading where
  stream : Stream
  handles : List (String × String)
  anchors : List (String × Nat)
  complete : List (Nat × Node)
  anchorCount : Nat
  referenceCount : Nat
  deriving Inhabited

/-- Reads something. -/
abbrev Reader := StateT Reading (Except Fault)

namespace Reader

/-- The next token. -/
def peek : Reader Placed := do
  let r ← get
  let (t, stream) ← r.stream.peek
  set { r with stream }
  return t

/-- Takes the next token. -/
def take : Reader Unit :=
  modify fun r => { r with stream := r.stream.take }

/-- Takes the next token, and looks at the one behind it. -/
def next : Reader Placed := do
  take
  peek

/-- Refuses the text at a token. -/
def refuse {α : Type} (t : Placed) (p : Problem) : Reader α :=
  throw ⟨t.line, p⟩

/-! ### Properties -/

/-- What stands before a node: an anchor, and a tag with its line. -/
structure Properties where
  anchor : Option String
  tag : Option (String × String × Nat)
  deriving Repr, Inhabited

/-- Reads an anchor, if there is one. -/
def anchor : Reader (Option String) := do
  match (← peek).token with
  | .anchor name => take; return some name
  | _ => return none

/-- Reads a tag, if there is one. -/
def tag : Reader (Option (String × String × Nat)) := do
  let t ← peek
  match t.token with
  | .tag handle suffix => take; return some (handle, suffix, t.line)
  | _ => return none

/-- Reads an anchor and a tag in any order. -/
def properties : Reader Properties := do
  match ← anchor with
  | some a => return ⟨some a, ← tag⟩
  | none =>
    match ← tag with
    | some t => return ⟨← anchor, some t⟩
    | none => return ⟨none, none⟩

/-- The tag in full. Without a tag it is empty. -/
def Properties.fullTag (p : Properties) : Reader String := do
  match p.tag with
  | none => return ""
  | some (handle, suffix, line) =>
    if handle.isEmpty then return suffix
    else
      let full := (((← get).handles.lookup handle).map (· ++ suffix)).getD ""
      if full.isEmpty then throw ⟨line, .unknownHandle⟩ else return full

/-- Reads a node that may have an anchor. The anchor is known inside the node. -/
def anchored (name : Option String) (node : Reader Node) : Reader Node := do
  match name with
  | none => node
  | some name =>
    let place := (← get).anchorCount
    modify fun r =>
      { r with anchors := (name, place) :: r.anchors, anchorCount := place + 1 }
    let n ← node
    modify fun r => { r with complete := (place, n) :: r.complete }
    return n

/-- Reads a reference. -/
def reference (name : String) : Reader Node := do
  let r ← get
  match r.anchors.lookup name with
  | none => throw (.anywhere (.unknownAnchor name))
  | some target =>
    set { r with referenceCount := r.referenceCount + 1 }
    return .reference r.referenceCount name target

/-! ### Nodes -/

/-- Tokens before which an item of a block sequence is missing. -/
def endsItem : Token → Bool
  | .item | .blockEnd => true
  | _ => false

/-- Tokens before which a key or a value of a block mapping is missing. -/
def endsEntry : Token → Bool
  | .key | .value | .blockEnd => true
  | _ => false

/-- Tokens before which an item of a sequence at the column of its key is missing. -/
def endsPlainItem (t : Token) : Bool :=
  t == .item || endsEntry t

/-- Tokens before which a key or a value is missing in a flow collection with this end. -/
def endsFlowEntry (last : Token) (t : Token) : Bool :=
  t == .comma || t == last

mutual

/-- Reads a node. Block collections are told apart from flow collections, and a sequence may stand
at the column of its key if `atKey`. -/
def node (block atKey : Bool) : Nat → Reader Node
  | 0 => throw (.anywhere .missingContent)
  | fuel + 1 => do
    match (← peek).token with
    | .reference name => take; reference name
    | _ =>
      let p ← properties
      let t ← peek
      let full ← p.fullTag
      match t.token with
      | .scalar text plain =>
        take
        let isOpen := (full.isEmpty && plain) || full == "!"
        anchored p.anchor (return .scalar text full isOpen)
      | .flowSequence => anchored p.anchor (do take; flowItems true [] fuel)
      | .flowMapping => anchored p.anchor (do take; flowEntries true [] fuel)
      | token =>
        if atKey && token == .item then anchored p.anchor (plainItems [] fuel)
        else if block && token == .blockSequence then
          anchored p.anchor (do take; blockItems [] fuel)
        else if block && token == .blockMapping then
          anchored p.anchor (do take; blockEntries [] fuel)
        else if p.anchor.isSome || !full.isEmpty then
          anchored p.anchor (return .scalar "" full full.isEmpty)
        else refuse t .missingContent

/-- Reads a node, unless it is missing before the next token. -/
def nodeUnless (missing : Token → Bool) (block atKey : Bool) : Nat → Reader Node
  | 0 => throw (.anywhere .missingContent)
  | fuel + 1 => do
    if missing (← peek).token then return .nothing else node block atKey fuel

/-- Reads the items of a block sequence. -/
def blockItems (items : List Node) : Nat → Reader Node
  | 0 => throw (.anywhere .missingItem)
  | fuel + 1 => do
    let t ← peek
    match t.token with
    | .item =>
      take
      let n ← nodeUnless endsItem true false fuel
      blockItems (items ++ [n]) fuel
    | .blockEnd => take; return .sequence items
    | _ => refuse t .missingItem

/-- Reads the items of a block sequence at the column of its key. -/
def plainItems (items : List Node) : Nat → Reader Node
  | 0 => throw (.anywhere .missingItem)
  | fuel + 1 => do
    if (← peek).token == .item then
      take
      let n ← nodeUnless endsPlainItem true false fuel
      plainItems (items ++ [n]) fuel
    else return .sequence items

/-- Reads the entries of a block mapping. -/
def blockEntries (entries : List (Node × Node)) : Nat → Reader Node
  | 0 => throw (.anywhere .missingKey)
  | fuel + 1 => do
    let t ← peek
    match t.token with
    | .key =>
      take
      let k ← nodeUnless endsEntry true true fuel
      let v ← blockValue fuel
      blockEntries (entries ++ [(k, v)]) fuel
    | .blockEnd => take; return .mapping entries
    | _ => refuse t .missingKey

/-- Reads a value of a block mapping. -/
def blockValue : Nat → Reader Node
  | 0 => throw (.anywhere .missingContent)
  | fuel + 1 => do
    if (← peek).token == .value then
      take
      nodeUnless endsEntry true true fuel
    else return .nothing

/-- Reads the items of a flow sequence. A pair of key and value is a mapping. -/
def flowItems (first : Bool) (items : List Node) : Nat → Reader Node
  | 0 => throw (.anywhere .openFlowSequence)
  | fuel + 1 => do
    let t ← peek
    if t.token == .flowSequenceEnd then
      take
      return .sequence items
    else
      let t ←
        if first then pure t
        else if t.token == .comma then next
        else refuse t .openFlowSequence
      if t.token == .key then
        take
        let pair ← flowPair fuel
        flowItems false (items ++ [pair]) fuel
      else if t.token == .flowSequenceEnd then
        take
        return .sequence items
      else
        let n ← node false false fuel
        flowItems false (items ++ [n]) fuel

/-- Reads a pair in a flow sequence. A sign in place of its key is passed over. -/
def flowPair : Nat → Reader Node
  | 0 => throw (.anywhere .openFlowSequence)
  | fuel + 1 => do
    let t ← peek
    let k ←
      if t.token == .value || endsFlowEntry .flowSequenceEnd t.token then do
        take
        pure Node.nothing
      else node false false fuel
    let v ← flowValue .flowSequenceEnd fuel
    return .mapping [(k, v)]

/-- Reads the entries of a flow mapping. -/
def flowEntries (first : Bool) (entries : List (Node × Node)) : Nat → Reader Node
  | 0 => throw (.anywhere .openFlowMapping)
  | fuel + 1 => do
    let t ← peek
    if t.token == .flowMappingEnd then
      take
      return .mapping entries
    else
      let t ←
        if first then pure t
        else if t.token == .comma then next
        else refuse t .openFlowMapping
      if t.token == .key then
        take
        let missing (t : Token) : Bool := t == .value || endsFlowEntry .flowMappingEnd t
        let k ← nodeUnless missing false false fuel
        let v ← flowValue .flowMappingEnd fuel
        flowEntries false (entries ++ [(k, v)]) fuel
      else if t.token == .flowMappingEnd then
        take
        return .mapping entries
      else
        let k ← node false false fuel
        flowEntries false (entries ++ [(k, .nothing)]) fuel

/-- Reads a value in a flow collection with this end. -/
def flowValue (last : Token) : Nat → Reader Node
  | 0 => throw (.anywhere .missingContent)
  | fuel + 1 => do
    if (← peek).token == .value then
      take
      nodeUnless (endsFlowEntry last) false false fuel
    else return .nothing

end

/-! ### Documents -/

/-- The handles that are known without a directive. -/
def knownHandles : List (String × String) :=
  [("!", "!"), ("!!", "tag:yaml.org,2002:")]

/-- Reads the directives before a document. -/
def directives (versioned : Bool) (handles : List (String × String)) : Nat → Reader Unit
  | 0 => throw (.anywhere .missingDocumentStart)
  | fuel + 1 => do
    let t ← peek
    match t.token with
    | .version major minor =>
      if versioned then refuse t .repeatedVersion
      else if major ≠ 1 || minor ≠ 1 then refuse t .otherVersion
      else take; directives true handles fuel
    | .handle name stem =>
      if (handles.lookup name).isSome then refuse t .repeatedHandle
      else take; directives versioned (handles ++ [(name, stem)]) fuel
    | _ => modify fun r => { r with handles := handles ++ knownHandles }

/-- Tokens before which a document has no content. -/
def endsDocument : Token → Bool
  | .version _ _ | .handle _ _ | .documentStart | .documentEnd | .streamEnd => true
  | _ => false

/-- Tokens with which the part before a document begins. -/
def beginsProlog : Token → Bool
  | .version _ _ | .handle _ _ | .documentStart => true
  | _ => false

/-- Reads the first document, if there is one. -/
def document (fuel : Nat) : Reader (Option Node) := do
  let t ← peek
  if t.token == .streamEnd then return none
  directives false [] fuel
  let n ←
    if beginsProlog t.token then do
      let t ← peek
      if t.token != .documentStart then refuse t .missingDocumentStart
      take
      nodeUnless endsDocument true false fuel
    else node true false fuel
  if (← peek).token == .documentEnd then take
  return some n

end Reader

/-- Reads the first document of a text. A text without one denotes nothing. -/
def Tree.ofText (s : String) : Except Fault (Option Tree) := do
  let cs := s.toList
  let fuel := 8 * cs.length + 16
  let (root, r) ← (Reader.document fuel).run ⟨.ofText cs, [], [], [], 0, 0⟩
  let target (i : Nat) : Node := (r.complete.lookup i).getD .nothing
  return root.map fun n =>
    ⟨n, (List.range r.anchorCount).map target, (cs.length + 1) * (r.referenceCount + 1)⟩

end Pathwise.Yaml
