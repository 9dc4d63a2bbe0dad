import Pathwise.Text.Numeral

/-!
# Instants

Points in time with the offset of the clock that read them, in the calendar format
`2006-01-02T15:04:05.999999999+07:00`. In numerals the hour may have one digit, a comma may stand
for the point, and digits beyond nanoseconds are dropped; offsets may go up to `24:60`. An offset of
zero is written as `Z`.
-/

namespace Pathwise

/-- A point in time: seconds since the start of 1970 and nanoseconds after that, and by how many
seconds the clock is ahead of universal time. -/
structure Instant where
  seconds : Int
  nanoseconds : Nat
  offset : Int
  deriving Repr, DecidableEq, Inhabited

namespace Instant

/-- Whether a year has a leap day. -/
def isLeap (year : Int) : Bool :=
  year % 4 = 0 && (year % 100 ≠ 0 || year % 400 = 0)

/-- The number of days of a month. -/
def monthLength (year : Int) (month : Nat) : Nat :=
  if month = 2 then if isLeap year then 29 else 28
  else if month = 4 || month = 6 || month = 9 || month = 11 then 30
  else 31

/-- The number of days from the start of 1970 to a date. Years begin in March here, so that a leap
day is the last of its year. -/
def daysTo (year : Int) (month day : Nat) : Int :=
  let y := if month ≤ 2 then year - 1 else year
  let shifted : Nat := (month + 9) % 12
  let dayOfYear : Int := (153 * shifted + 2) / 5 + day - 1
  365 * y + y / 4 - y / 100 + y / 400 + dayOfYear - 719468

/-- The date that is the given number of days after the start of 1970, as year, month and day. -/
def dateOf (days : Int) : Int × Nat × Nat :=
  let z := days + 719468
  let era := z / 146097
  let dayOfEra := (z % 146097).toNat
  let yearOfEra := (dayOfEra - dayOfEra / 1460 + dayOfEra / 36524 - dayOfEra / 146096) / 365
  let dayOfYear := dayOfEra - (365 * yearOfEra + yearOfEra / 4 - yearOfEra / 100)
  let shifted := (5 * dayOfYear + 2) / 153
  let day := dayOfYear - (153 * shifted + 2) / 5 + 1
  let month := if shifted < 10 then shifted + 3 else shifted - 9
  let year := (yearOfEra : Int) + era * 400
  (if month ≤ 2 then year + 1 else year, month, day)

/-- The start of the year 1, for instants that are not known. -/
def zero : Instant :=
  ⟨daysTo 1 1 1 * 86400, 0, 0⟩

/-! ### Writing -/

/-- A number with at least two digits. -/
def two (n : Nat) : String :=
  Text.padLeft 2 '0' (toString n)

/-- The date and the time of day that the clock showed, with a separator between them. -/
def clockText (separator : String) (t : Instant) : String :=
  let shown := t.seconds + t.offset
  let (year, month, day) := dateOf (shown / 86400)
  let second := (shown % 86400).toNat
  Text.padLeft 4 '0' (toString year) ++ "-" ++ two month ++ "-" ++ two day ++ separator ++
    two (second / 3600) ++ ":" ++ two (second / 60 % 60) ++ ":" ++ two (second % 60)

/-- The offset of the clock. -/
def offsetText (t : Instant) : String :=
  if t.offset = 0 then "Z"
  else
    let minutes := t.offset.natAbs / 60
    (if t.offset < 0 then "-" else "+") ++ two (minutes / 60) ++ ":" ++ two (minutes % 60)

/-- An instant in the calendar format, with as many digits after the point as are needed. -/
def text (t : Instant) : String :=
  let digits := (Text.padLeft 9 '0' (toString t.nanoseconds)).toList
  let fraction := Text.dropEndWhile (· == '0') digits
  let point := if fraction.isEmpty then "" else "." ++ String.ofList fraction
  clockText "T" t ++ point ++ offsetText t

/-- Whether the offset is one that readers of the format have to accept. -/
def hasPlainOffset (t : Instant) : Bool :=
  t.offset.natAbs < 24 * 3600

/-- Nanoseconds since the start of 1970, as a signed word of 64 bits. -/
def unixNanoseconds (t : Instant) : Int :=
  int64 (t.seconds * 10 ^ 9 + t.nanoseconds)

/-! ### Reading -/

/-- Reads a number of exactly `n` digits, and gives what follows it. -/
def fixed? (n : Nat) (cs : List Char) : Option (Nat × List Char) :=
  let digits := cs.take n
  if digits.length = n && digits.all Text.isDigit then
    (Text.digits? 10 digits).map (·, cs.drop n)
  else none

/-- Reads a number of one or two digits. -/
def oneOrTwo? (cs : List Char) : Option (Nat × List Char) :=
  (fixed? 2 cs).or (fixed? 1 cs)

/-- Reads a given character. -/
def sign? (c : Char) : List Char → Option (List Char)
  | d :: cs => if c = d then some cs else none
  | [] => none

/-- Reads the digits after the seconds, if there are any, as nanoseconds. -/
def fraction (cs : List Char) : Nat × List Char :=
  match cs with
  | c :: d :: rest =>
    if (c == '.' || c == ',') && Text.isDigit d then
      let digits := (d :: rest).takeWhile Text.isDigit
      let kept := digits.take 9
      ((Text.digits? 10 (kept ++ List.replicate (9 - kept.length) '0')).getD 0,
        (d :: rest).dropWhile Text.isDigit)
    else (0, cs)
  | _ => (0, cs)

/-- Reads the offset of the clock at the end of a text. -/
def offset? : List Char → Option Int
  | ['Z'] => some 0
  | c :: cs => do
    let (hours, cs) ← fixed? 2 cs
    let cs ← sign? ':' cs
    let (minutes, cs) ← fixed? 2 cs
    if hours > 24 || minutes > 60 || !cs.isEmpty then none
    else
      let seconds : Int := (hours * 60 + minutes) * 60
      if c = '+' then some seconds else if c = '-' then some (-seconds) else none
  | [] => none

/-- The instant that a text denotes. -/
def parse? (s : String) : Option Instant := do
  let (year, cs) ← fixed? 4 s.toList
  let cs ← sign? '-' cs
  let (month, cs) ← fixed? 2 cs
  let cs ← sign? '-' cs
  let (day, cs) ← fixed? 2 cs
  let cs ← sign? 'T' cs
  let (hour, cs) ← oneOrTwo? cs
  let cs ← sign? ':' cs
  let (minute, cs) ← fixed? 2 cs
  let cs ← sign? ':' cs
  let (second, cs) ← fixed? 2 cs
  let (nanoseconds, cs) := fraction cs
  let offset ← offset? cs
  if month = 0 || month > 12 || day = 0 || day > monthLength year month || hour ≥ 24 ||
      minute ≥ 60 || second ≥ 60 then none
  else
    let clock : Int := daysTo year month day * 86400 + (hour * 3600 + minute * 60 + second : Nat)
    some ⟨clock - offset, nanoseconds, offset⟩

end Instant

end Pathwise
