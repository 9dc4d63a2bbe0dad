import Pathwise.Text.Numeral
import Pathwise.Text.Raw

/-!
# Durations

Spans of time in nanoseconds. They are written as numbers with units, from hours down to
nanoseconds; in numerals any number of such terms may follow an optional sign, and a number may have
a fraction.
-/

namespace Pathwise

/-- A span of time. -/
structure Duration where
  nanoseconds : Int
  deriving Repr, DecidableEq, Inhabited

namespace Duration

/-! ### Writing -/

/-- A number of units with a fraction of the given number of places, without zeros at its end. -/
def fractionText (n places : Nat) : String :=
  let digits := (Text.padLeft places '0' (toString (n % 10 ^ places))).toList
  let kept := if places = 0 then [] else Text.dropEndWhile (· == '0') digits
  let whole := toString (n / 10 ^ places)
  if kept.isEmpty then whole else whole ++ "." ++ String.ofList kept

/-- The text of a number of nanoseconds. Below a second there is one unit only. -/
def magnitudeText (n : Nat) : String :=
  if n = 0 then "0s"
  else if n < 10 ^ 3 then toString n ++ "ns"
  else if n < 10 ^ 6 then fractionText n 3 ++ "µs"
  else if n < 10 ^ 9 then fractionText n 6 ++ "ms"
  else
    let seconds := fractionText (n % (60 * 10 ^ 9)) 9 ++ "s"
    let minutes := n / (60 * 10 ^ 9)
    if minutes = 0 then seconds
    else
      let hours := minutes / 60
      let rest := toString (minutes % 60) ++ "m" ++ seconds
      if hours = 0 then rest else toString hours ++ "h" ++ rest

/-- The text of a duration. -/
def text (d : Duration) : String :=
  (if d.nanoseconds < 0 then "-" else "") ++ magnitudeText d.nanoseconds.natAbs

/-! ### Reading -/

/-- Why a text is no duration. -/
inductive Fault where
  | invalid
  | missingUnit
  | unknownUnit (unit : Text.Raw)
  deriving Repr, DecidableEq, Inhabited

/-- A byte between quotes. Bytes outside ASCII are written as numbers, and so are controls. -/
def quotedByte (b : UInt8) : String :=
  let c := Char.ofNat b.toNat
  if b < 0x20 || 0x80 ≤ b then "\\x" ++ Text.hexPadded 2 b.toNat
  else if c = '"' || c = '\\' then "\\" ++ c.toString
  else c.toString

/-- A text between quotes. -/
def quoted (r : Text.Raw) : String :=
  "\"" ++ String.join (r.bytes.map quotedByte) ++ "\""

/-- The wording of a fault of a text. -/
def Fault.message (source : Text.Raw) : Fault → String
  | invalid => "time: invalid duration " ++ quoted source
  | missingUnit => "time: missing unit in duration " ++ quoted source
  | unknownUnit u => "time: unknown unit " ++ quoted u ++ " in duration " ++ quoted source

/-- The units with their lengths in nanoseconds. Both signs for micro are known. -/
def units : List (Text.Raw × Nat) :=
  [("ns", 1), ("us", 10 ^ 3), ("µs", 10 ^ 3), ("μs", 10 ^ 3), ("ms", 10 ^ 6), ("s", 10 ^ 9),
    ("m", 60 * 10 ^ 9), ("h", 3600 * 10 ^ 9)]

/-- No duration exceeds this number of nanoseconds. -/
def limit : Nat := 2 ^ 63

/-- Whether a byte is a decimal digit. -/
def isDigit (b : UInt8) : Bool :=
  0x30 ≤ b && b ≤ 0x39

/-- The value of a decimal digit. -/
def digitValue (b : UInt8) : Nat :=
  b.toNat - 0x30

/-- The value of decimal digits. -/
def digitsValue (digits : List UInt8) : Nat :=
  digits.foldl (fun n b => n * 10 + digitValue b) 0

/-- The digits of a fraction that are taken into account, as a number with its count of places:
those after which the number would exceed the limit are dropped. -/
def fractionValue (digits : List UInt8) : Nat × Nat :=
  let step (state : Nat × Nat × Bool) (b : UInt8) : Nat × Nat × Bool :=
    let (n, places, full) := state
    let m := n * 10 + digitValue b
    if full || n > (limit - 1) / 10 || m > limit then (n, places, true)
    else (m, places + 1, false)
  let (n, places, _) := digits.foldl step (0, 0, false)
  (n, places)

/-- A power of ten as repeated multiplication in double precision has it. -/
def powerOfTen : Nat → Float
  | 0 => 1
  | n + 1 => powerOfTen n * 10

/-- A part of a unit in nanoseconds, rounded down as double precision has it. -/
def fractionOf (unit : Nat) (digits : List UInt8) : Nat :=
  let (n, places) := fractionValue digits
  (Float.ofNat n * (Float.ofNat unit / powerOfTen places)).toUInt64.toNat

/-- One number with its unit. -/
structure Piece where
  whole : List UInt8
  fraction : List UInt8
  unit : Text.Raw
  deriving Repr, Inhabited

/-- The value of a term in nanoseconds. -/
def Piece.value (p : Piece) : Except Fault Nat :=
  let whole := digitsValue p.whole
  if whole > limit then .error .invalid
  else if p.whole.isEmpty && p.fraction.isEmpty then .error .invalid
  else if p.unit.isEmpty then .error .missingUnit
  else
    match units.lookup p.unit with
    | none => .error (.unknownUnit p.unit)
    | some unit =>
      if whole > limit / unit then .error .invalid
      else
        let v := whole * unit + fractionOf unit p.fraction
        if v > limit then .error .invalid else .ok v

/-- The byte before a fraction. -/
def point : UInt8 := 0x2E

/-- Whether a byte can begin a number. -/
def beginsNumber (b : UInt8) : Bool :=
  b == point || isDigit b

/-- Splits off the first number with its unit. -/
def splitPiece (bs : List UInt8) : Piece × List UInt8 :=
  let whole := bs.takeWhile isDigit
  let bs := bs.dropWhile isDigit
  let (fraction, bs) :=
    match bs with
    | b :: rest =>
      if b = point then (rest.takeWhile isDigit, rest.dropWhile isDigit) else ([], bs)
    | [] => ([], bs)
  (⟨whole, fraction, ⟨bs.takeWhile (!beginsNumber ·)⟩⟩, bs.dropWhile (!beginsNumber ·))

/-- The sum of the terms of a text. Each term takes up at least one byte. -/
def sum (total : Nat) : Nat → List UInt8 → Except Fault Nat
  | _, [] => .ok total
  | 0, _ => .error .invalid
  | fuel + 1, b :: bs =>
    if !beginsNumber b then .error .invalid
    else
      let (piece, rest) := splitPiece (b :: bs)
      match piece.value with
      | .error f => .error f
      | .ok v => if total + v > limit then .error .invalid else sum (total + v) fuel rest

/-- The nanoseconds of a text without its sign. -/
def magnitude (bs : List UInt8) : Except Fault Nat :=
  if bs = [0x30] then .ok 0
  else if bs.isEmpty then .error .invalid
  else sum 0 bs.length bs

/-- The positive duration of a number of nanoseconds. -/
def ofNanoseconds (n : Nat) : Except Fault Duration :=
  if n < limit then .ok ⟨n⟩ else .error .invalid

/-- The duration that a text spells. -/
def parse (r : Text.Raw) : Except Fault Duration :=
  match r.bytes with
  | 0x2D :: bs => (magnitude bs).map fun n => ⟨-(n : Int)⟩
  | 0x2B :: bs => (magnitude bs).bind ofNanoseconds
  | bs => (magnitude bs).bind ofNanoseconds

end Duration

end Pathwise
