import Pathwise.Command.Basic

/-!
# Help

What each command does and which flags it has, laid out in columns.
-/

namespace Pathwise.Command

/-! ### Flags -/

/-- What a flag does. -/
def Flag.usage : Flag → String
  | addressPolicy => "Memory address policy: relative or absolute"
  | config => "YAML config file (checker: section)"
  | delete => "Delete the stored report with this ID"
  | format => "Output format: text, json, yaml or csv"
  | help => "help"
  | ignoreOutputs => "Do not compare observed program outputs"
  | limit => "Show at most N entries (0 for all)"
  | metricsAddress => "Expose Prometheus metrics on this address while comparing"
  | noColour => "Disable colored output"
  | oracle => "Tie-break oracle: none, sampling, z3 or hybrid"
  | output => "Write the report to a file instead of stdout"
  | pattern => "Glob for path files inside a program directory"
  | showReport => "Print the stored report with this ID"
  | store => "History store directory"
  | timeout => "Per-comparison oracle timeout (0 keeps the config value)"
  | verbose => "Enable debug logging"
  | workers => "Concurrent comparisons (0 keeps the config value)"

/-- What a flag does for a command. -/
def Flag.usageFor (c : Command) : Flag → String
  | help => "help for " ++ c.word
  | store => if c = .compare then "Save the report into this history store" else store.usage
  | f => f.usage

/-- The value of a flag that is not given, if it is shown. -/
def Flag.standard : Flag → String
  | format => " (default \"text\")"
  | limit => " (default 20)"
  | _ => ""

/-- The name for a kind of value. -/
def ValueKind.shown : ValueKind → String
  | switch => ""
  | integer => " int"
  | duration => " duration"
  | text => " string"

/-- The first column for a flag. -/
def Flag.column (f : Flag) : String :=
  (if f.letter?.isSome then "  " ++ f.shown else "      " ++ f.shown) ++ f.kind.shown

/-- The lines on some flags of a command. -/
def flagLines (c : Command) (flags : List Flag) : String :=
  let columns := (flags.map (·.column.length)).foldl max 0
  String.join (flags.map fun f =>
    f.column ++ Text.repeated (columns - f.column.length + 3) ' ' ++ f.usageFor c ++ f.standard ++
      "\n")

/-! ### Commands -/

/-- What a command does, in one line. -/
def summary : Command → String
  | root => "Layered equivalence checker for symbolic execution paths"
  | compare => "Compare the symbolic paths of two programs"
  | completion => "Generate the autocompletion script for the specified shell"
  | help => "Help about any command"
  | history => "List or show reports saved by compare --store"
  | inspect => "Show how a path file is parsed and classified"
  | pair => "Compare two single path files"

/-- What a command does. -/
def description : Command → String
  | compare =>
    "Compare every path file under DIR_A with every path file under DIR_B,\n" ++
      "match paths one-to-one and print the program-level verdict.\n\n" ++
      "Exit status is 0 when the programs are equivalent, 1 when they are not\n" ++
      "(or only partially) equivalent and 2 on errors."
  | completion =>
    "Generate the autocompletion script for " ++ programName ++ " for the specified shell.\n" ++
      "See each sub-command's help for details on how to use the generated script."
  | help =>
    "Help provides help for any command in the application.\n" ++
      "Simply type " ++ programName ++ " help [path to command] for full details."
  | c => c.summary

/-- The words that a command takes. -/
def wordsUsage : Command → String
  | compare => " DIR_A DIR_B"
  | pair => " FILE_A FILE_B"
  | inspect => " FILE"
  | help => " [command]"
  | _ => ""

/-- How a command is called. -/
def usageLine : Command → String
  | root => root.path ++ " [command]"
  | completion => completion.path ++ " [command]"
  | c => c.path ++ c.wordsUsage ++ " [flags]"

/-- The words that name commands below a command, with what these do. -/
def children : Command → List (String × String)
  | root => named.map fun c => (c.word, c.summary)
  | completion =>
    ["bash", "fish", "powershell", "zsh"].map fun s =>
      (s, "Generate the autocompletion script for " ++ s)
  | _ => []

/-- The lines on the commands below a command. -/
def childLines (c : Command) : String :=
  if c.children.isEmpty then ""
  else
    "\nAvailable Commands:\n" ++
      String.join (c.children.map fun (w, s) =>
        "  " ++ w ++ Text.repeated (11 - w.length) ' ' ++ " " ++ s ++ "\n")

/-- The flag for help among flags, by name. -/
def withHelp (flags : List Flag) : List Flag :=
  flags.filter (·.name < Flag.help.name) ++ [.help] ++ flags.filter (Flag.help.name < ·.name)

/-- How a command is used. -/
def usage (c : Command) : String :=
  let own := if c = .root then sharedFlags else c.ownFlags
  let shared := if c = .root then "" else "\nGlobal Flags:\n" ++ flagLines c sharedFlags
  let more :=
    if c.children.isEmpty then ""
    else "\nUse \"" ++ c.path ++ " [command] --help\" for more information about a command.\n"
  "Usage:\n  " ++ c.usageLine ++ "\n" ++ c.childLines ++ "\nFlags:\n" ++
    flagLines c (withHelp own) ++ shared ++ more

/-- The help on a command. -/
def helpText (c : Command) : String :=
  c.description ++ "\n\n" ++ c.usage

end Pathwise.Command
