import Pathwise.Text.Quoted

/-!
# Raw text

A text as a file holds it: bytes, which mostly are characters in UTF-8. A byte that belongs to no
character is **stray**. The bytes of a text of characters decode to that text, and none is stray.
-/

namespace Pathwise.Text

/-- A text by its bytes. -/
structure Raw where
  bytes : List UInt8
  deriving Repr, DecidableEq, Inhabited

namespace Raw

/-- The bytes of a text of characters. -/
def ofString (s : String) : Raw :=
  ⟨s.toUTF8.toList⟩

instance : Coe String Raw :=
  ⟨ofString⟩

/-- Whether nothing stands in a text. -/
def isEmpty (r : Raw) : Bool :=
  r.bytes.isEmpty

/-- The text of characters that the bytes encode, if none is stray. -/
def text? (r : Raw) : Option String :=
  String.fromUTF8? ⟨r.bytes.toArray⟩

/-- The character that the first `n` bytes encode, and the bytes after it. -/
def charOf? (n : Nat) (bs : List UInt8) : Option (Char × List UInt8) :=
  match (text? ⟨bs.take n⟩).map String.toList with
  | some [c] => some (c, bs.drop n)
  | _ => none

/-- The character with which some bytes begin, and the bytes after it. -/
def firstChar? (bs : List UInt8) : Option (Char × List UInt8) :=
  charOf? 1 bs <|> charOf? 2 bs <|> charOf? 3 bs <|> charOf? 4 bs

/-- The character that stands for a stray byte where only characters can stand. -/
def replacement : Char := Char.ofNat 0xFFFD

/-- A part of a text: a character, or a stray byte. -/
inductive Piece where
  | char (c : Char)
  | stray (b : UInt8)
  deriving Repr, DecidableEq, Inhabited

/-- The parts of some bytes. There are no more of them than bytes. -/
def piecesFrom : Nat → List UInt8 → List Piece
  | 0, _ => []
  | _, [] => []
  | n + 1, b :: bs =>
    match firstChar? (b :: bs) with
    | some (c, rest) => .char c :: piecesFrom n rest
    | none => .stray b :: piecesFrom n bs

/-- The parts of a text. -/
def pieces (r : Raw) : List Piece :=
  piecesFrom r.bytes.length r.bytes

/-- A text of characters, in which each stray byte is replaced. -/
def shown (r : Raw) : String :=
  r.text?.getD (String.ofList (r.pieces.map fun
    | .char c => c
    | .stray _ => replacement))

/-- A text between double quotes. Stray bytes are written as numbers. -/
def quoted (r : Raw) : String :=
  let one : Piece → String
    | .char c => quotedChar c
    | .stray b => "\\x" ++ hexPadded 2 b.toNat
  "\"" ++ String.join (r.pieces.map one) ++ "\""

end Raw

end Pathwise.Text
