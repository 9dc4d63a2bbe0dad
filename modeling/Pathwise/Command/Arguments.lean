import Pathwise.Command.Flag

/-!
# Reading arguments

Flags can stand anywhere among the arguments, as `--name value`, `--name=value`, `-n value`,
`-nvalue` or `-n=value`. Letters of switches can be bundled, and `--` ends the flags. The later of
two values wins.
-/

namespace Pathwise.Command

/-- Why arguments cannot be read. -/
inductive FlagError where
  | malformed (argument : String)
  | unknown (name : String)
  | unknownLetter (byte : UInt8) (bundle : String)
  | noValue (argument : String)
  | noLetterValue (letter : Char) (bundle : String)
  | badValue (flag : Flag) (value : String) (fault : ValueFault)
  deriving Repr, DecidableEq, Inhabited

/-- A character between single quotes. -/
def quotedLetter (c : Char) : String :=
  let quote := Char.ofNat 39
  let inside :=
    if c = quote then "\\" ++ c.toString
    else if c = '"' then c.toString
    else Text.quotedChar c
  quote.toString ++ inside ++ quote.toString

/-- The wording of an error. -/
def FlagError.message : FlagError → String
  | malformed a => "bad flag syntax: " ++ a
  | unknown name => "unknown flag: --" ++ name
  | unknownLetter b bundle =>
    "unknown shorthand flag: " ++ quotedLetter (Char.ofNat b.toNat) ++ " in -" ++ bundle
  | noValue a => "flag needs an argument: " ++ a
  | noLetterValue c bundle => "flag needs an argument: " ++ quotedLetter c ++ " in -" ++ bundle
  | badValue f s fault =>
    "invalid argument " ++ Text.quoted s ++ " for " ++ Text.quoted f.shown ++ " flag: " ++
      fault.message s

/-! ### Single arguments -/

/-- What has been read: the options, the arguments that are no flags, and the flag that waits for
its value, with the error if none comes. -/
structure Reading where
  options : Options
  others : List String
  waiting : Option (Flag × FlagError)
  deriving Repr, Inhabited

namespace Reading

/-- The state before any argument. -/
def start : Reading :=
  ⟨{}, [], none⟩

/-- Gives a flag its value. -/
def give (r : Reading) (f : Flag) (value : String) : Except FlagError Reading :=
  match f.kind.read value with
  | .ok v => .ok { r with options := r.options.set f v, waiting := none }
  | .error e => .error (.badValue f value e)

/-- Gives a flag that stands alone its value: a switch is on, others wait for the next argument. -/
def alone (r : Reading) (f : Flag) (missing : FlagError) : Except FlagError Reading :=
  if f.kind = .switch then r.give f "true" else .ok { r with waiting := some (f, missing) }

/-- Reads an argument that begins with two hyphens. -/
def long (flags : List Flag) (r : Reading) (argument : String) : Except FlagError Reading :=
  let body := argument.toList.drop 2
  if body.head?.all (fun c => c == '-' || c == '=') then .error (.malformed argument)
  else
    let (name, value?) :=
      match Text.cut? (· == '=') body with
      | some (name, value) => (String.ofList name, some (String.ofList value))
      | none => (String.ofList body, none)
    match flags.find? (·.name == name), value? with
    | none, _ => .error (.unknown name)
    | some f, some value => r.give f value
    | some f, none => r.alone f (.noValue argument)

/-- Reads a bundle of letters. What begins with `test.` is passed over. -/
def letters (flags : List Flag) (r : Reading) : List Char → Except FlagError Reading
  | [] => .ok r
  | c :: cs =>
    let bundle := String.ofList (c :: cs)
    if Text.startsWith "test.".toList (c :: cs) then .ok r
    else
      match flags.find? (·.letter? == some c), cs with
      | none, _ => .error (.unknownLetter (c.toString.toUTF8.toList.headD 0) bundle)
      | some f, '=' :: d :: ds => r.give f (String.ofList (d :: ds))
      | some f, [] => r.alone f (.noLetterValue c bundle)
      | some f, _ =>
        if f.kind = .switch then
          match r.give f "true" with
          | .ok r => letters flags r cs
          | .error e => .error e
        else r.give f (String.ofList cs)

end Reading

/-- Whether an argument is a flag, or begins a bundle of them. -/
def isFlag (argument : String) : Bool :=
  match argument.toList with
  | '-' :: _ :: _ => true
  | _ => false

/-- Whether an argument begins with two hyphens. -/
def isLong (argument : String) : Bool :=
  Text.startsWith "--".toList argument.toList

/-! ### All arguments -/

/-- Reads arguments after those that have been read. -/
def readArguments (flags : List Flag) (r : Reading) : List String → Except FlagError Reading
  | [] =>
    match r.waiting with
    | some (_, missing) => .error missing
    | none => .ok r
  | a :: as =>
    match r.waiting with
    | some (f, _) =>
      match r.give f a with
      | .ok r => readArguments flags r as
      | .error e => .error e
    | none =>
      if a = "--" then .ok { r with others := r.others ++ as }
      else if !isFlag a then readArguments flags { r with others := r.others ++ [a] } as
      else
        match if isLong a then r.long flags a else r.letters flags (a.toList.drop 1) with
        | .ok r => readArguments flags r as
        | .error e => .error e

/-! ### Words -/

/-- Whether an argument is a single flag that takes the next one for its value. A flag that is not
known does. -/
def takesNext (flags : List Flag) (argument : String) : Bool :=
  let isSwitch (f : Option Flag) : Bool := f.any (·.kind = .switch)
  !argument.toList.contains '=' &&
    match argument.toList with
    | '-' :: '-' :: name => !isSwitch (flags.find? (·.name == String.ofList name))
    | ['-', c] => c.toNat < 0x80 && !isSwitch (flags.find? (·.letter? == some c))
    | _ => false

/-- The arguments that are neither flags nor values of them, up to the end of the flags. A flag that
takes the last argument ends them too. -/
def words (flags : List Flag) (skip : Bool) : List String → List String
  | [] => []
  | a :: as =>
    if skip then words flags false as
    else if a = "--" then []
    else if takesNext flags a then if as.length ≤ 1 then [] else words flags true as
    else if a ≠ "" && a.toList.head? ≠ some '-' then a :: words flags false as
    else words flags false as

/-- The arguments without the first that is a given word. -/
def withoutWord (flags : List Flag) (word : String) (skip : Bool) : List String → List String
  | [] => []
  | a :: as =>
    if skip then a :: withoutWord flags word false as
    else if a = "--" then a :: as
    else if takesNext flags a then a :: withoutWord flags word true as
    else if a = word then as
    else a :: withoutWord flags word false as

end Pathwise.Command
