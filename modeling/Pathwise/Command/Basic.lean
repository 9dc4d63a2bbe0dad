import Pathwise.Command.Arguments

/-!
# Commands

The first word among the arguments says what to do. Each command has flags of its own beside those
that all share, and takes a number of further words.
-/

namespace Pathwise

/-- What the program can be told to do. Without a word it shows its help. -/
inductive Command where
  | root
  | compare
  | completion
  | help
  | history
  | inspect
  | pair
  deriving Repr, DecidableEq, Inhabited

namespace Command

/-- The name of the program. -/
def programName : String := "pathequiv"

/-- The flags that all commands share, by name. -/
def sharedFlags : List Flag :=
  [.addressPolicy, .config, .format, .ignoreOutputs, .noColour, .oracle, .output, .pattern,
    .timeout, .verbose, .workers]

/-- The commands that a word can name, by name. -/
def named : List Command :=
  [compare, completion, help, history, inspect, pair]

/-- The word for a command. -/
def word : Command → String
  | root => programName
  | compare => "compare"
  | completion => "completion"
  | help => "help"
  | history => "history"
  | inspect => "inspect"
  | pair => "pair"

/-- A command with the name of the program. -/
def path : Command → String
  | root => programName
  | c => programName ++ " " ++ c.word

/-- The flags of a command that others do not have, by name, without that for help. -/
def ownFlags : Command → List Flag
  | compare => [.metricsAddress, .store]
  | history => [.delete, .limit, .showReport, .store]
  | _ => []

/-- The flags of a command without that for help. -/
def flags (c : Command) : List Flag :=
  c.ownFlags ++ sharedFlags

/-- How many further words a command takes, if that is fixed. -/
def arity? : Command → Option Nat
  | compare | pair => some 2
  | inspect => some 1
  | history | completion => some 0
  | root | help => none

/-! ### Finding the command -/

/-- Why the program does not do what it is told. -/
inductive UsageError where
  | unknownCommand (word : String) (command : Command)
  | arity (expected got : Nat)
  | flag (error : FlagError)
  deriving Repr, DecidableEq, Inhabited

/-- The wording of an error. -/
def UsageError.message : UsageError → String
  | unknownCommand w c => "unknown command " ++ Text.quoted w ++ " for " ++ Text.quoted c.path
  | arity expected got =>
    "accepts " ++ toString expected ++ " arg(s), received " ++ toString got
  | flag e => e.message

/-- The command that arguments name, and the arguments without its word. -/
def findCommand (arguments : List String) : Except UsageError (Command × List String) :=
  match words Command.root.flags false arguments with
  | [] => .ok (.root, arguments)
  | w :: _ =>
    match Command.named.find? (·.word == w) with
    | some c => .ok (c, withoutWord Command.root.flags w false arguments)
    | none => .error (.unknownCommand w .root)

/-- Whether a command takes a list of words. A command without words takes the first for the name of
a command below it. -/
def checkArity (c : Command) (others : List String) : Except UsageError Unit :=
  match c.arity?, others with
  | some 0, w :: _ => .error (.unknownCommand w c)
  | some n, _ => if others.length = n then .ok () else .error (.arity n others.length)
  | none, _ => .ok ()

end Command

end Pathwise
