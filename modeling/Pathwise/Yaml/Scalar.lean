import Pathwise.Decimal.Reading
import Pathwise.Text.Numeral
import Pathwise.Yaml.Fault
import Pathwise.Yaml.Timestamp

/-!
# The meaning of scalars

A plain scalar in YAML can mean more than its text: null, a boolean, an integer, another number or a
time. A tag says what a scalar has to mean.
-/

namespace Pathwise.Yaml

/-- What a scalar means. -/
inductive Meaning where
  | null
  | bool (value : Bool)
  | int (value : Int)
  | float (value : Float)
  | time
  | text
  deriving Repr, Inhabited

/-- A word in its three spellings: lower case, capitalised, and upper case. -/
def spellings (word : String) : List String :=
  [word, word.capitalize, word.toUpper]

/-- Words with a fixed meaning. -/
def words : List (String × Meaning) :=
  (["y", "yes", "true", "on"].flatMap spellings).map (·, .bool true) ++
    (["n", "no", "false", "off"].flatMap spellings).map (·, .bool false) ++
    ("" :: "~" :: spellings "null").map (·, .null) ++
    [".nan", ".NaN", ".NAN"].map (·, .float (0 / 0)) ++
    [".inf", ".Inf", ".INF", "+.inf", "+.Inf", "+.INF"].map (·, .float (1 / 0)) ++
    ["-.inf", "-.Inf", "-.INF"].map (·, .float (-1 / 0))

/-- An unsigned integer, in a base that its beginning tells. -/
def magnitude? : List Char → Option Nat
  | ['0'] => some 0
  | '0' :: c :: d :: ds =>
    match c.toLower with
    | 'x' => Text.digits? 16 (d :: ds)
    | 'o' => Text.digits? 8 (d :: ds)
    | 'b' => Text.digits? 2 (d :: ds)
    | _ => Text.digits? 8 (c :: d :: ds)
  | '0' :: ds => Text.digits? 8 ds
  | ds => Text.digits? 10 ds

/-- An integer with an optional sign. With a sign it has 64 bits; without one, it may be an unsigned
number of 64 bits. -/
def integer? (cs : List Char) : Option Int :=
  let bounded (n : Int) : Option Int := if -2 ^ 63 ≤ n ∧ n < 2 ^ 63 then some n else none
  match cs with
  | '-' :: ds => (magnitude? ds).bind fun n => bounded (-(n : Int))
  | '+' :: ds => (magnitude? ds).bind fun n => bounded n
  | ds => (magnitude? ds).bind fun n => if n < 2 ^ 64 then some n else none

/-- A decimal number with an optional sign, if it is not too large. -/
def decimal? (cs : List Char) : Option Float :=
  let (negative, cs) :=
    match cs with
    | '-' :: cs => (true, cs)
    | '+' :: cs => (false, cs)
    | cs => (false, cs)
  let (whole, cs) := cs.span Text.isDigit
  let (fraction, cs) :=
    match cs with
    | '.' :: cs => cs.span Text.isDigit
    | cs => ([], cs)
  if whole.isEmpty && fraction.isEmpty then none
  else
    let exponent :=
      if cs.isEmpty then some 0
      else
        match Decimal.readExponent cs with
        | some (e, []) => some e
        | _ => none
    exponent.bind fun e =>
      let x := (Decimal.Numeral.mk whole fraction e).toFloat
      if x.isInf then none else some (if negative then -x else x)

/-- Whether underscores stand between digits only. The character before is given. -/
def underscoresFit (before : Option Char) : List Char → Bool
  | [] => true
  | '_' :: cs =>
    before.any Text.isDigit && cs.head?.any Text.isDigit && underscoresFit (some '_') cs
  | c :: cs => underscoresFit (some c) cs

/-- A text without its underscores. -/
def withoutUnderscores (cs : List Char) : List Char :=
  cs.filter (· != '_')

/-- A binary integer with its sign behind the mark of its base. -/
def innerSigned? (cs : List Char) : Option Int :=
  match cs with
  | '0' :: 'b' :: ds =>
    (Text.signed? 2 ds).bind fun n => if -2 ^ 63 ≤ n ∧ n < 2 ^ 63 then some n else none
  | _ => none

/-- Whether a scalar that begins with this character can mean a number. -/
def beginsNumeral (c : Char) : Bool :=
  c == '+' || c == '-' || Text.isDigit c

/-- The number that a scalar means whose underscores have been left out. -/
def number (cs : List Char) : Meaning :=
  match integer? cs, decimal? cs, innerSigned? cs with
  | some n, _, _ => .int n
  | none, some x, _ => .float x
  | none, none, some n => .int n
  | none, none, none => .text

/-- The meaning of a plain scalar besides times. In numbers underscores do not count; after a point
they have to stand between digits. -/
def timelessMeaning (s : String) : Meaning :=
  match words.lookup s, s.toList with
  | some m, _ => m
  | none, [] => .null
  | none, c :: cs =>
    if c = '.' then
      if !underscoresFit none (c :: cs) then .text
      else
        match decimal? (withoutUnderscores (c :: cs)) with
        | some x => .float x
        | none => .text
    else if beginsNumeral c then number (withoutUnderscores (c :: cs))
    else .text

/-- The meaning of a plain scalar. -/
def meaning (s : String) : Meaning :=
  if isTimestamp s.toList then .time else timelessMeaning s

/-! ### Tags -/

/-- The kinds of scalars that tags are for. -/
inductive Kind where
  | null
  | bool
  | int
  | float
  | time
  | text
  | binary
  deriving Repr, DecidableEq, Inhabited

/-- The short tag of a kind. -/
def Kind.shortTag : Kind → String
  | null => "!!null"
  | bool => "!!bool"
  | int => "!!int"
  | float => "!!float"
  | time => "!!timestamp"
  | text => "!!str"
  | binary => "!!binary"

/-- The kind that a tag is for. -/
def Kind.ofTag? : String → Option Kind
  | "tag:yaml.org,2002:null" => some .null
  | "tag:yaml.org,2002:bool" => some .bool
  | "tag:yaml.org,2002:int" => some .int
  | "tag:yaml.org,2002:float" => some .float
  | "tag:yaml.org,2002:timestamp" => some .time
  | "tag:yaml.org,2002:str" => some .text
  | "tag:yaml.org,2002:binary" => some .binary
  | _ => none

/-- The kind of a meaning. -/
def Meaning.kind : Meaning → Kind
  | null => .null
  | bool _ => .bool
  | int _ => .int
  | float _ => .float
  | time => .time
  | text => .text

/-- The meaning of a scalar that has to be of a kind. An integer of 64 bits will do for a number. -/
def Kind.meaning (k : Kind) (s : String) : Except Problem Meaning :=
  match k with
  | .text | .binary => .ok .text
  | k =>
    let found := if k = .time then Yaml.meaning s else timelessMeaning s
    if found.kind = k then .ok found
    else
      match k, found with
      | .float, .int n =>
        if n < 2 ^ 63 then .ok (.float (Float.ofInt n))
        else .error (.otherKind "!!int" s k.shortTag)
      | _, _ => .error (.otherKind found.kind.shortTag s k.shortTag)

end Pathwise.Yaml
