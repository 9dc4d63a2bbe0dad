import Pathwise.Text.Raw

/-!
# Patterns for names

A pattern matches whole names. A star stands for any bytes, a question mark for one character, and
brackets for one of some characters, or after `^` for one of all others; a backslash takes the
meaning from the next character. None of them stands for a slash, except brackets. A malformed
pattern matches nothing.

What a star stands for may end inside a character. There a question mark or brackets stand for one
stray byte, which brackets take for U+FFFD. A star stands for as few bytes as possible: once what
follows it up to the next star fits, that is not tried further on.
-/

namespace Pathwise.Files

open Text (Raw)

/-- The byte of a sign. -/
def byteOf (c : Char) : UInt8 :=
  c.toUInt8

/-- A part of a pattern. -/
inductive PatternPart where
  | star
  | any
  | exactly (b : UInt8)
  | oneOf (negated : Bool) (ranges : List (Char × Char))
  deriving Repr, DecidableEq, Inhabited

/-- Parts of a pattern between stars, which may fit anywhere if they come after a star. -/
structure Segment where
  anywhere : Bool
  parts : List PatternPart
  deriving Repr, DecidableEq, Inhabited

/-- A pattern. -/
abbrev Pattern := List Segment

namespace Pattern

/-! ### Reading -/

/-- Reads a character inside brackets, after which something has to follow. -/
def classChar? (bs : List UInt8) : Option (Char × List UInt8) :=
  let plain := match bs with
    | b :: rest =>
      if b = byteOf '-' || b = byteOf ']' then none
      else if b = byteOf '\\' then some rest
      else some bs
    | [] => none
  (plain.bind Raw.firstChar?).filter fun (_, rest) => !rest.isEmpty

/-- Reads what stands between brackets. -/
def ranges? : Nat → List (Char × Char) → List UInt8 → Option (List (Char × Char) × List UInt8)
  | 0, _, _ => none
  | fuel + 1, ranges, bs =>
    if !ranges.isEmpty && bs.head? == some (byteOf ']') then some (ranges, bs.drop 1)
    else do
      let (lo, rest) ← classChar? bs
      if rest.head? == some (byteOf '-') then
        let (hi, rest) ← classChar? (rest.drop 1)
        ranges? fuel (ranges ++ [(lo, hi)]) rest
      else ranges? fuel (ranges ++ [(lo, lo)]) rest

/-- Reads brackets after the opening one. -/
def brackets? (bs : List UInt8) : Option (PatternPart × List UInt8) := do
  let negated := bs.head? == some (byteOf '^')
  let (ranges, rest) ← ranges? (bs.length + 1) [] (if negated then bs.drop 1 else bs)
  return (.oneOf negated ranges, rest)

/-- Reads the first part of a pattern. -/
def part? (b : UInt8) (bs : List UInt8) : Option (PatternPart × List UInt8) :=
  if b = byteOf '*' then some (.star, bs)
  else if b = byteOf '?' then some (.any, bs)
  else if b = byteOf '[' then brackets? bs
  else if b = byteOf '\\' then bs.head?.map fun c => (.exactly c, bs.drop 1)
  else some (.exactly b, bs)

/-- Reads the parts of a pattern. There are no more of them than bytes. -/
def parts? : Nat → List UInt8 → Option (List PatternPart)
  | _, [] => some []
  | 0, _ => none
  | fuel + 1, b :: bs => do
    let (part, rest) ← part? b bs
    return part :: (← parts? fuel rest)

/-- The parts before the first star, and the segments from it on. Stars in a row count as one. -/
def segments : List PatternPart → List PatternPart × List Segment
  | [] => ([], [])
  | .star :: ps =>
    let (before, later) := segments ps
    ([], if before.isEmpty && !later.isEmpty then later else ⟨true, before⟩ :: later)
  | p :: ps =>
    let (before, later) := segments ps
    (p :: before, later)

/-- The pattern that a text spells. -/
def ofRaw? (r : Raw) : Option Pattern :=
  (parts? r.bytes.length r.bytes).map fun ps =>
    let (before, later) := segments ps
    if before.isEmpty then later else ⟨false, before⟩ :: later

/-! ### Matching -/

/-- The byte between the parts of a name. -/
def slash : UInt8 := byteOf '/'

/-- Splits off the first character. A stray byte counts as one. -/
def splitChar (b : UInt8) (bs : List UInt8) : Char × List UInt8 :=
  (Raw.firstChar? (b :: bs)).getD (Raw.replacement, bs)

/-- What is left of a name behind parts of a pattern that fit its beginning. -/
def behind? : List PatternPart → List UInt8 → Option (List UInt8)
  | [], bs => some bs
  | _ :: _, [] => none
  | .star :: _, _ :: _ => none
  | .exactly c :: ps, b :: bs => if b = c then behind? ps bs else none
  | .any :: ps, b :: bs => if b = slash then none else behind? ps (splitChar b bs).2
  | .oneOf negated ranges :: ps, b :: bs =>
    let (c, rest) := splitChar b bs
    if ranges.any (fun (lo, hi) => lo ≤ c && c ≤ hi) != negated then behind? ps rest else none

/-- The first result at some rest of a name, up to the first slash. -/
def firstAt? (f : List UInt8 → Option (List UInt8)) : List UInt8 → Option (List UInt8)
  | [] => f []
  | b :: bs => f (b :: bs) <|> if b = slash then none else firstAt? f bs

/-- Whether a pattern matches a name. The last segment has to reach the end. -/
def matchesBytes : Pattern → List UInt8 → Bool
  | [], bs => bs.isEmpty
  | s :: more, bs =>
    if s.anywhere && s.parts.isEmpty then !bs.contains slash
    else
      let fits (cs : List UInt8) : Option (List UInt8) :=
        (behind? s.parts cs).filter fun rest => rest.isEmpty || !more.isEmpty
      match if s.anywhere then firstAt? fits bs else fits bs with
      | some rest => matchesBytes more rest
      | none => false

end Pattern

/-- Whether the pattern that a text spells matches a name. -/
def matchesPattern (pattern : Raw) (name : String) : Bool :=
  (Pattern.ofRaw? pattern).any (·.matchesBytes (Raw.ofString name).bytes)

end Pathwise.Files
