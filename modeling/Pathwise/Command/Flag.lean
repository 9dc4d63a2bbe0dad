import Pathwise.Text.Quoted
import Pathwise.Time.Duration

/-!
# Flags

What can be set on the command line, how each setting is written, and how its value is read.

* **Switches** need no value; the others take one.
* **Integers** have 64 bits and a base that their beginning tells: `0x`, `0o`, `0b` or `0`. Digits
  may have single underscores between them.
-/

namespace Pathwise.Command

/-! ### Values -/

/-- What kind of value a flag has. -/
inductive ValueKind where
  | switch
  | integer
  | duration
  | text
  deriving Repr, DecidableEq, Inhabited

/-- A value of a flag. -/
inductive FlagValue where
  | switch (on : Bool)
  | integer (n : Int)
  | duration (d : Duration)
  | text (s : String)
  deriving Repr, DecidableEq, Inhabited

/-- What is wrong with an integer. -/
inductive IntegerFault where
  | malformed
  | outOfRange
  deriving Repr, DecidableEq, Inhabited

/-- Why a value cannot be read. -/
inductive ValueFault where
  | switch
  | integer (fault : IntegerFault)
  | duration (fault : Duration.Fault)
  deriving Repr, DecidableEq, Inhabited

/-- The wording of a fault in a text. -/
def ValueFault.message (s : String) : ValueFault → String
  | switch => "strconv.ParseBool: parsing " ++ Text.quoted s ++ ": invalid syntax"
  | integer .malformed => "strconv.ParseInt: parsing " ++ Text.quoted s ++ ": invalid syntax"
  | integer .outOfRange => "strconv.ParseInt: parsing " ++ Text.quoted s ++ ": value out of range"
  | duration f => f.message s

/-- The value of a switch. -/
def readSwitch? (s : String) : Option Bool :=
  if ["1", "t", "T", "TRUE", "true", "True"].contains s then some true
  else if ["0", "f", "F", "FALSE", "false", "False"].contains s then some false
  else none

/-- Reads digits of 64 bits after those that have been read. Underscores are passed over. -/
def readDigits (base acc : Nat) : List Char → Except IntegerFault Nat
  | [] => .ok acc
  | c :: cs =>
    if c = '_' then readDigits base acc cs
    else
      match Text.digit? base c with
      | none => .error .malformed
      | some d =>
        if acc * base + d < 2 ^ 64 then readDigits base (acc * base + d) cs
        else .error .outOfRange

/-- Whether each underscore stands between digits, or after the mark of the base. The character
before is a digit or such a mark if `after` says so. -/
def separates (base : Nat) (after : Bool) : List Char → Bool
  | [] => true
  | [c] => c != '_'
  | c :: d :: cs =>
    (c != '_' || (after && (Text.digit? base d).isSome)) &&
      separates base (Text.digit? base c).isSome (d :: cs)

/-- Reads an integer without a sign. -/
def readMagnitude (cs : List Char) : Except IntegerFault Nat :=
  let (base, marked, digits) :=
    match cs with
    | '0' :: c :: d :: ds =>
      match c.toLower with
      | 'b' => (2, true, d :: ds)
      | 'o' => (8, true, d :: ds)
      | 'x' => (16, true, d :: ds)
      | _ => (8, true, c :: d :: ds)
    | '0' :: ds => (8, true, ds)
    | ds => (10, false, ds)
  if cs.isEmpty then .error .malformed
  else do
    let n ← readDigits base 0 digits
    if separates (max base 10) marked digits then return n else throw .malformed

/-- Reads an integer of 64 bits. -/
def readInteger (s : String) : Except IntegerFault Int :=
  let positive (cs : List Char) : Except IntegerFault Int := do
    let n ← readMagnitude cs
    if n < 2 ^ 63 then return n else throw .outOfRange
  match s.toList with
  | '-' :: cs => do
    let n ← readMagnitude cs
    if n ≤ 2 ^ 63 then return -(n : Int) else throw .outOfRange
  | '+' :: cs => positive cs
  | cs => positive cs

/-- Reads a value of a kind. -/
def ValueKind.read (k : ValueKind) (s : String) : Except ValueFault FlagValue :=
  match k with
  | switch =>
    match readSwitch? s with
    | some b => .ok (.switch b)
    | none => .error .switch
  | integer => ((readInteger s).map FlagValue.integer).mapError .integer
  | duration => ((Duration.parse s).map FlagValue.duration).mapError .duration
  | text => .ok (.text s)

/-! ### Flags -/

/-- The flags. -/
inductive Flag where
  | addressPolicy
  | config
  | delete
  | format
  | help
  | ignoreOutputs
  | limit
  | metricsAddress
  | noColour
  | oracle
  | output
  | pattern
  | showReport
  | store
  | timeout
  | verbose
  | workers
  deriving Repr, DecidableEq, Inhabited

namespace Flag

/-- The name of a flag, which is written after two hyphens. -/
def name : Flag → String
  | addressPolicy => "address-policy"
  | config => "config"
  | delete => "delete"
  | format => "format"
  | help => "help"
  | ignoreOutputs => "ignore-outputs"
  | limit => "limit"
  | metricsAddress => "metrics-addr"
  | noColour => "no-color"
  | oracle => "oracle"
  | output => "output"
  | pattern => "pattern"
  | showReport => "show"
  | store => "store"
  | timeout => "timeout"
  | verbose => "verbose"
  | workers => "workers"

/-- The letter of a flag, which is written after one hyphen. -/
def letter? : Flag → Option Char
  | format => some 'f'
  | help => some 'h'
  | output => some 'o'
  | verbose => some 'v'
  | _ => none

/-- The kind of value that a flag has. -/
def kind : Flag → ValueKind
  | help | ignoreOutputs | noColour | verbose => .switch
  | limit | workers => .integer
  | timeout => .duration
  | _ => .text

/-- How a flag is shown in messages. -/
def shown (f : Flag) : String :=
  match f.letter? with
  | some c => "-" ++ c.toString ++ ", --" ++ f.name
  | none => "--" ++ f.name

end Flag

/-! ### Options -/

/-- What the flags set. Some settings have no value of their own unless they are given. -/
structure Options where
  addressPolicy : Option String := none
  config : String := ""
  delete : String := ""
  format : String := "text"
  help : Bool := false
  ignoreOutputs : Option Bool := none
  limit : Int := 20
  metricsAddress : String := ""
  noColour : Bool := false
  oracle : Option String := none
  output : String := ""
  pattern : Option String := none
  showReport : String := ""
  store : String := ""
  timeout : Option Duration := none
  verbose : Bool := false
  workers : Option Int := none
  deriving Repr, DecidableEq, Inhabited

/-- Sets a flag. A value of another kind than the flag has sets nothing. -/
def Options.set (o : Options) : Flag → FlagValue → Options
  | .addressPolicy, .text s => { o with addressPolicy := some s }
  | .config, .text s => { o with config := s }
  | .delete, .text s => { o with delete := s }
  | .format, .text s => { o with format := s }
  | .help, .switch b => { o with help := b }
  | .ignoreOutputs, .switch b => { o with ignoreOutputs := some b }
  | .limit, .integer n => { o with limit := n }
  | .metricsAddress, .text s => { o with metricsAddress := s }
  | .noColour, .switch b => { o with noColour := b }
  | .oracle, .text s => { o with oracle := some s }
  | .output, .text s => { o with output := s }
  | .pattern, .text s => { o with pattern := some s }
  | .showReport, .text s => { o with showReport := s }
  | .store, .text s => { o with store := s }
  | .timeout, .duration d => { o with timeout := some d }
  | .verbose, .switch b => { o with verbose := b }
  | .workers, .integer n => { o with workers := some n }
  | _, _ => o

end Pathwise.Command
