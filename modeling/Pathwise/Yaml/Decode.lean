import Pathwise.Decimal.Binary
import Pathwise.Text.Raw
import Pathwise.Yaml.Node
import Pathwise.Yaml.Scalar

/-!
# Decoding YAML nodes

A decoder lays a node over a value that is already there, so that what the text leaves out keeps its
value.

* **Mistyped** nodes leave the value as it is. That is noted, and decoding goes on.
* **References** are followed where the node is decoded. A node that is decoded inside itself, and a
  document nearly all of which comes from references, are refused.
* **Merging**: the entries of other mappings are laid over a record in the place of a merge key; of
  a list of mappings the first wins.
-/

namespace Pathwise.Yaml

/-- What is known of the document: the nodes with anchors, the references that are being followed,
and how deep merging may go. -/
structure Scope where
  anchored : List Node
  followed : List Nat
  depth : Nat

/-- How many nodes were decoded, how many of them inside references, and whether some were
mistyped. -/
structure Tally where
  decoded : Nat
  referred : Nat
  mistyped : Bool
  deriving Repr, Inhabited

/-- Decodes something. -/
abbrev Decoding := ReaderT Scope (StateT Tally (Except Fault))

namespace Decoding

variable {α : Type}

/-- The share of nodes that may come from references, by the number of nodes. -/
def allowedShare (decoded : Nat) : Float :=
  if decoded ≤ 400000 then 0.99
  else if decoded ≥ 4000000 then 0.10
  else 0.99 - 0.89 * (Float.ofNat (decoded - 400000) / 3600000)

/-- Whether too much of a document comes from references. -/
def Tally.isExcessive (t : Tally) : Bool :=
  100 < t.referred && 1000 < t.decoded &&
    Float.ofNat t.referred / Float.ofNat t.decoded > allowedShare t.decoded

/-- Counts a node. -/
def count : Decoding Unit := do
  let inside := !(← read).followed.isEmpty
  let t ← get
  let t := { t with decoded := t.decoded + 1, referred := t.referred + if inside then 1 else 0 }
  set t
  if Tally.isExcessive t then throw (.anywhere .tooManyAliases)

/-- Decodes a node, or the one that a reference leads to. -/
def follow (n : Node) (decode : Node → Decoding α) : Decoding α := do
  count
  match n with
  | .reference number name target =>
    let scope ← read
    if scope.followed.contains number then throw (.anywhere (.endlessAnchor name))
    else
      let inside := { scope with followed := number :: scope.followed }
      ReaderT.adapt (fun _ => inside) (do
        count
        decode (scope.anchored[target]?.getD .nothing))
  | n => decode n

/-- Notes that a node is mistyped. -/
def mistyped : Decoding (Option α) := do
  modify fun t => { t with mistyped := true }
  return none

end Decoding

/-- Lays a node that is no reference over a value. -/
abbrev Decoder (α : Type) := Node → α → Decoding (Option α)

namespace Decoder

open Decoding

variable {α σ : Type}

/-- The value of a base64 digit. -/
def base64Digit? (c : Char) : Option Nat :=
  if c.isUpper then some (c.toNat - 'A'.toNat)
  else if c.isLower then some (c.toNat - 'a'.toNat + 26)
  else if c.isDigit then some (c.toNat - '0'.toNat + 52)
  else if c = '+' then some 62
  else if c = '/' then some 63
  else none

/-- The bytes of base64 digits in groups of four, the last of which may be filled up. -/
def base64Bytes? : List Char → Option (List Nat)
  | [] => some []
  | [a, b, '=', '='] => do
    let n := (← base64Digit? a) * 64 + (← base64Digit? b)
    return [n / 16]
  | [a, b, c, '='] => do
    let n := ((← base64Digit? a) * 64 + (← base64Digit? b)) * 64 + (← base64Digit? c)
    return [n / 1024, n / 4 % 256]
  | a :: b :: c :: d :: rest => do
    let n := (((← base64Digit? a) * 64 + (← base64Digit? b)) * 64 + (← base64Digit? c)) * 64 +
      (← base64Digit? d)
    return [n / 65536, n / 256 % 256, n % 256] ++ (← base64Bytes? rest)
  | _ => none

/-- The text that is written in base64. Line ends in it do not count. -/
def base64Text? (s : String) : Option Text.Raw := do
  let bytes ← base64Bytes? (s.toList.filter fun c => c != '\n' && c != '\r')
  return ⟨bytes.map UInt8.ofNat⟩

/-- The text of a scalar and what it means. -/
def scalar (text tag : String) (isOpen : Bool) : Decoding (Text.Raw × Meaning) :=
  if tag.isEmpty then return (text, if isOpen then meaning text else .text)
  else
    match Kind.ofTag? tag with
    | none => return (text, .text)
    | some .binary =>
      match base64Text? text with
      | some r => return (r, .text)
      | none => throw (.anywhere .badBase64)
    | some k =>
      match k.meaning text with
      | .ok m => return (text, m)
      | .error p => throw (.anywhere p)

/-- Decodes a scalar by its text and what it means. -/
def ofScalar (f : Text.Raw → Meaning → Option α) : Decoder α
  | .scalar text tag isOpen, _ => do
    let (text, m) ← scalar text tag isOpen
    match f text m with
    | some a => return some a
    | none => mistyped
  | _, _ => mistyped

/-- The integer that a number is cut off to. What does not fit in 64 bits becomes the least integer,
and what is too large or no number at all is refused. -/
def truncate? (x : Float) : Option Int :=
  if x.isNaN || x > 9223372036854775807 then none
  else if -9223372036854775808 ≤ x && x < 9223372036854775808 then some x.toInt64.toInt
  else some (-2 ^ 63)

/-- Decodes an integer of 64 bits. -/
def int : Decoder Int := ofScalar fun
  | _, .null => some 0
  | _, .int n => if n < 2 ^ 63 then some n else none
  | _, .float x => truncate? x
  | _, _ => none

/-- Decodes a number of double precision. -/
def float : Decoder Float := ofScalar fun
  | _, .null => some 0
  | _, .int n => some (Float.ofInt n)
  | _, .float x => some x
  | _, _ => none

/-- Decodes a boolean. -/
def bool : Decoder Bool := ofScalar fun
  | _, .null => some false
  | _, .bool b => some b
  | _, _ => none

/-- Decodes a text. Numbers and booleans keep the text that they were written with. -/
def text : Decoder Text.Raw := ofScalar fun
  | _, .null => some ⟨[]⟩
  | r, _ => some r

/-! ### Records -/

/-- A field of a record: its name, and how a node is laid over the record there. -/
structure Field (σ : Type) where
  name : String
  decoder : Decoder σ

/-- A field that is read by `get` and written by `set`. -/
def Field.of (name : String) (d : Decoder α) (get : σ → α) (set : σ → α → σ) : Field σ :=
  ⟨name, fun n s => do return (← d n (get s)).map (set s)⟩

/-- Lays the value of an entry over a record, if the key names one of its fields. -/
def entry (fields : List (Field σ)) (key value : Node) (s : σ) : Decoding σ := do
  match ← follow key (text · ⟨[]⟩) with
  | none => return s
  | some name =>
    match fields.find? (Text.Raw.ofString ·.name == name) with
    | none => return s
    | some f => return (← follow value (f.decoder · s)).getD s

/-- The mapping that is merged in. -/
def mergedMapping (n : Node) : Decoding Node := do
  let scope ← read
  let isMapping :=
    match n with
    | .reference _ _ target => (scope.anchored[target]?).any Node.isMapping
    | n => n.isMapping
  if isMapping then return n else throw (.anywhere .badMerge)

/-- The nodes that are merged in, in the order in which they are laid over the record. -/
def merged : Node → List Node
  | .sequence items => items.reverse
  | n => [n]

/-- Lays the entries of a mapping over a record, and first those of the mappings that are merged in.
The depth bounds how deep merging goes. -/
def entries (fields : List (Field σ)) : Nat → Node → σ → Decoding σ
  | 0, _, _ => throw (.anywhere .tooDeep)
  | depth + 1, n, s =>
    match n with
    | .mapping es =>
      es.foldlM (fun s (key, value) =>
        if key.isMerge then
          (merged value).foldlM (fun s n => do
            follow (← mergedMapping n) (entries fields depth · s)) s
        else entry fields key value s) s
    | _ => return s

/-- Decodes a record. Null is the record in which nothing is set. -/
def record (unset : σ → σ) (fields : List (Field σ)) : Decoder σ
  | .mapping es, s => do return some (← entries fields (← read).depth (.mapping es) s)
  | n, s => ofScalar (fun
    | _, .null => some (unset s)
    | _, _ => none) n s

/-- Decodes a document. The result also says whether some node was mistyped. -/
def run (d : Decoder α) (t : Tree) (old : α) : Except Fault (α × Bool) := do
  let scope : Scope := ⟨t.anchored, [], t.size + 1⟩
  let (a, tally) ← ((count *> follow t.root (d · old)).run scope).run ⟨0, 0, false⟩
  return (a.getD old, tally.mistyped)

end Decoder

end Pathwise.Yaml
