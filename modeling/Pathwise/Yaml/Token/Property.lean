import Pathwise.Text.Numeral
import Pathwise.Yaml.Cursor
import Pathwise.Yaml.Token.Basic

/-!
# Scanning anchors, tags and directives

* **Anchors** name a node, and references stand for the node with that name.
* **Tags** say of what kind a node is. They begin with a handle, which stands for a longer text, or
  are written in full between angle brackets. In tags a percent sign begins a byte in hexadecimal.
* **Directives** stand before a document: the version of YAML, and handles for tags.
-/

namespace Pathwise.Yaml

/-! ### Anchors -/

/-- Signs that may follow a name directly. -/
def signsAfterName : List Char :=
  ['?', ':', ',', ']', '\x7d', '%', '@', '\x60']

/-- Reads the name of an anchor or a reference that begins here. -/
def anchorName : Scan String := do
  Scan.skip
  Scan.need 1
  let name ← Scan.takeWhile isNameChar
  let c ← get
  Scan.check (!name.isEmpty && (c.atWordEnd || c.rest.head?.any signsAfterName.contains))
    .missingName
  return String.ofList name

/-! ### Tags -/

/-- The characters of tags besides those of names and percent signs. -/
def tagSigns : List Char :=
  [';', '/', '?', ':', '@', '&', '=', '+', '$', ',', '.', '!', '~', '*', Char.ofNat 39, '(', ')',
    '[', ']']

/-- The byte that an escape in a tag stands for. -/
def escapedByte? : List Char → Option Nat
  | '%' :: a :: b :: _ => Text.digits? 16 [a, b]
  | _ => none

/-- How many bytes a character has whose first byte is given. -/
def byteCount? (byte : Nat) : Option Nat :=
  if byte < 0x80 then some 1
  else if byte / 0x20 = 0x6 then some 2
  else if byte / 0x10 = 0xE then some 3
  else if byte / 0x8 = 0x1E then some 4
  else none

/-- Reads a byte that is written as an escape, of which the following holds. -/
def escapedByte (isRight : Nat → Bool) (problem : Problem) : Scan Nat := do
  Scan.need 3
  match escapedByte? (← get).rest with
  | none => Scan.refuse .badEscapedByte
  | some b =>
    Scan.check (isRight b) problem
    Scan.skips 3
    return b

/-- Reads the further bytes of a character. -/
def trailingBytes (code : Nat) : Nat → Scan Nat
  | 0 => return code
  | n + 1 => do
    let b ← escapedByte (· / 0x40 == 0x2) .badTrailingByte
    trailingBytes (code * 0x40 + b % 0x40) n

/-- Reads the character that escapes in a tag stand for. -/
def escapedChar : Scan Char := do
  let b ← escapedByte (fun b => (byteCount? b).isSome) .badLeadingByte
  match byteCount? b with
  | none | some 1 => return Char.ofNat b
  | some n => return Char.ofNat (← trailingBytes (b % 2 ^ (7 - n)) (n - 1))

/-- Reads the rest of a tag, of which some text has been read. -/
def tagTextFrom (text : List Char) : Nat → Scan (List Char)
  | 0 => return text
  | fuel + 1 => do
    match (← get).rest with
    | [] => return text
    | d :: _ =>
      if d = '%' then
        let e ← escapedChar
        Scan.need 1
        tagTextFrom (text ++ [e]) fuel
      else if isNameChar d || tagSigns.contains d then
        Scan.skip
        Scan.need 1
        tagTextFrom (text ++ [d]) fuel
      else return text

/-- Reads the text of a tag after a beginning. Together they have to be something. -/
def tagText (beginning : List Char) : Scan (List Char) := do
  Scan.need 1
  let c ← get
  let text ← tagTextFrom [] (c.rest.length + 1)
  Scan.check (!beginning.isEmpty || (← get).mark.index != c.mark.index) .missingTag
  return beginning.drop 1 ++ text

/-- Reads a handle: an exclamation mark, a name, and another exclamation mark if there is one. -/
def tagHandle : Scan (List Char) := do
  Scan.need 1
  Scan.check ((← get).sees '!') .missingTagSign
  Scan.skip
  Scan.need 1
  let name ← Scan.takeWhile isNameChar
  if (← get).sees '!' then
    Scan.skip
    return '!' :: name ++ ['!']
  else return '!' :: name

/-- Whether what was read is a handle for sure. -/
def isWholeHandle (handle : List Char) : Bool :=
  1 < handle.length && handle.getLast? == some '!'

/-- Reads the handle and the rest of a tag that begins here. A tag in full has no handle, and so has
the tag that is a mere exclamation mark. -/
def tagParts : Scan (List Char × List Char) := do
  Scan.need 2
  if (← get).skip.sees '<' then
    Scan.skips 2
    let text ← tagText []
    Scan.check ((← get).sees '>') .openTag
    Scan.skip
    return ([], text)
  else
    let handle ← tagHandle
    if isWholeHandle handle then return (handle, ← tagText [])
    else
      let text ← tagText handle
      return if text.isEmpty then ([], ['!']) else (['!'], text)

/-- Reads a tag that begins here. -/
def tagToken : Scan Token := do
  let (handle, text) ← tagParts
  Scan.need 1
  Scan.check (← get).atWordEnd .missingWordEnd
  return .tag (String.ofList handle) (String.ofList text)

/-! ### Directives -/

/-- Reads the digits of a part of a version, of which there can be so many more. -/
def versionDigits (more : Nat) : Scan (List Char) := do
  match (← get).rest with
  | d :: _ =>
    if d.isDigit then
      match more with
      | 0 => Scan.refuse .longVersion
      | more + 1 =>
        Scan.skip
        Scan.need 1
        return d :: (← versionDigits more)
    else return []
  | [] => return []

/-- Reads a part of a version, of at most two digits. -/
def versionNumber : Scan Nat := do
  Scan.need 1
  match Text.digits? 10 (← versionDigits 2) with
  | some n => return n
  | none => Scan.refuse .missingVersion

/-- Reads the version of YAML. -/
def versionValue : Scan Token := do
  Scan.need 1
  Scan.skipWhile isBlank
  let major ← versionNumber
  Scan.check ((← get).sees '.') .badVersion
  Scan.skip
  return .version major (← versionNumber)

/-- Reads a handle and the text that it stands for. -/
def handleValue : Scan Token := do
  Scan.need 1
  Scan.skipWhile isBlank
  let name ← tagHandle
  Scan.check (name == ['!'] || isWholeHandle name) .missingTagSign
  Scan.need 1
  Scan.check (← get).atBlank .missingBlank
  Scan.skipWhile isBlank
  let stem ← tagText []
  Scan.need 1
  Scan.check (← get).atWordEnd .missingWordEnd
  return .handle (String.ofList name) (String.ofList stem)

/-- Reads a directive that begins here, with its line end. -/
def directiveToken : Scan Token := do
  Scan.skip
  Scan.need 1
  let name ← Scan.takeWhile isNameChar
  Scan.check (!name.isEmpty) .missingDirectiveName
  Scan.check (← get).atWordEnd .badDirectiveName
  let token ←
    if name = "YAML".toList then versionValue
    else if name = "TAG".toList then handleValue
    else Scan.refuse .unknownDirective
  Scan.skipLine
  return token

end Pathwise.Yaml
