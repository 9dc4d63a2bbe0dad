import Pathwise.Command.Help
import Pathwise.Config.Yaml
import Pathwise.History.File
import Pathwise.Inspection
import Pathwise.Loading

/-!
# Running commands

A run turns arguments and the files that are there into texts to print, files, and an exit status:
0 if all went well and the programs are equivalent, 1 if they are not or only partly, and 2 if
something went wrong.
-/

namespace Pathwise.Command

/-- What a run takes from libraries: random numbers, sorting, and a bounded map for verdicts. What
ends the wait for an oracle comes from outside, too: how long it takes is not part of the
program. -/
structure Platform where
  random : Sampling.Generator
  sorter : Sorter
  verdicts : VerdictMap
  ending : Duration → Nat × Nat → Oracle.Ending

/-- What a run finds: the files, the time, how long a comparison takes, and whether its output goes
to a terminal. -/
structure Surroundings where
  files : FileTree
  now : Instant
  elapsed : Duration
  isTerminal : Bool
  deriving Repr, Inhabited

/-- What a run leaves. -/
structure Outcome where
  status : UInt32
  output : String
  errors : String
  files : FileTree
  deriving Repr, Inhabited

/-! ### Steps -/

/-- What a step of a run needs and changes. -/
structure Run where
  options : Options
  now : Instant
  elapsed : Duration
  isTerminal : Bool
  files : FileTree
  output : String
  errors : String
  deriving Repr, Inhabited

/-- A step of a run, which can end it with a message. What it did before that stays. -/
abbrev Step (α : Type) := ExceptT String (StateM Run) α

/-- A result, or the end of the run with a message. -/
def orFail {ε α : Type} (message : ε → String) (r : Except ε α) : Step α :=
  match r with
  | .ok x => pure x
  | .error e => throw (message e)

/-- Prints to the output. -/
def print (s : String) : Step Unit :=
  modify fun r => { r with output := r.output ++ s }

/-- Prints a line beside the output. -/
def note (s : String) : Step Unit :=
  modify fun r => { r with errors := r.errors ++ s ++ "\n" }

/-- Whether the output is coloured. -/
def Run.colours (r : Run) : Bool :=
  r.isTerminal && !r.options.noColour && r.options.output == ""

/-- The wording for a file that cannot be created. -/
def createMessage (name : String) (f : FileFault) : String :=
  "failed to create output file: open " ++ name ++ ": " ++ f.reason

/-- Writes a file. What is written to a device for what the program prints is printed. -/
def writeTo (name contents : String) : Step Unit := do
  let t ← orFail (createMessage name) ((← get).files.write name contents)
  let place := ((t.find name).toOption.map (·.1)).getD []
  modify fun r =>
    { r with
      files := t
      output := if place = FileTree.outputDevice then r.output ++ contents else r.output
      errors := if place = FileTree.errorDevice then r.errors ++ contents else r.errors }

/-- Writes a text to the file that the options name, or prints it. A file is there and empty before
the text is put together. -/
def emit {ε : Type} (message : ε → String) (text : Except ε String) : Step Unit := do
  let name := (← get).options.output
  if name = "" then print (← orFail message text)
  else
    writeTo name ""
    writeTo name (← orFail message text)

/-- The format that the options name. -/
def chosenFormat : Step Format := do
  let name := (← get).options.format
  match Format.parse? name with
  | some f => return f
  | none => throw (Format.unreadableMessage name)

/-- A configuration with what the options set. -/
def Options.over (o : Options) (c : Config) : Config :=
  { c with
    workers := o.workers.getD c.workers
    comparisonTimeout := (o.timeout.map fun d => Text.Raw.ofString d.text).getD c.comparisonTimeout
    addressPolicy := (o.addressPolicy.map Text.Raw.ofString).getD c.addressPolicy
    strategy := (o.oracle.map Text.Raw.ofString).getD c.strategy
    filePattern := (o.pattern.map Text.Raw.ofString).getD c.filePattern
    ignoreOutputs := o.ignoreOutputs.getD c.ignoreOutputs }

/-- The configuration that the options lead to. -/
def chosenConfig : Step Config := do
  let r ← get
  let base ←
    if r.options.config = "" then pure Config.default
    else orFail Config.LoadError.message (Config.load r.files r.options.config)
  orFail ConfigError.message (r.options.over base).ready

/-- The exit status for a report. -/
def statusOf (r : Report) : UInt32 :=
  if r.summary.verdict = .equivalent then 0 else 1

/-- Prints a report. -/
def emitReport (f : Format) (r : Report) : Step UInt32 := do
  emit RenderError.message (r.render (← get).colours f)
  return statusOf r

/-! ### Commands -/

section

variable (P : Platform)

/-- Keeps a report in the history of a directory, if one is named. What goes wrong there does not
matter to the comparison. -/
def saveReport (dir : String) (r : Report) : Step Unit :=
  modify fun run =>
    if dir = "" then run
    else
      match History.openAt run.files dir with
      | .error _ => run
      | .ok (h, t) =>
        match (History.put r).run.run h with
        | (.ok (), h) => { run with files := History.saveAt t dir h }
        | (.error _, _) => { run with files := t }

/-- Compares two directories. -/
def runCompare (dirA dirB : String) : Step UInt32 := do
  let format ← chosenFormat
  let config ← chosenConfig
  let run ← get
  let settings := config.settings P.random P.sorter
  let (result, _) := (Session.start P.verdicts settings).compareDirectories settings
    ⟨.live, P.ending settings.timeout⟩ config.filePattern run.now run.elapsed run.files dirA dirB
  let report ← orFail Unavailable.message result
  saveReport run.options.store report
  emitReport format report

/-- Compares two path files. -/
def runPair (fileA fileB : String) : Step UInt32 := do
  let format ← chosenFormat
  let config ← chosenConfig
  let run ← get
  let settings := config.settings P.random P.sorter
  let a ← orFail Path.Refusal.message (Path.ofFile run.files fileA)
  let b ← orFail Path.Refusal.message (Path.ofFile run.files fileB)
  let (report, _) := (Session.start P.verdicts settings).comparePair settings
    ⟨.live, P.ending settings.timeout (0, 0)⟩ run.now run.elapsed (.ofPath a) (.ofPath b)
  emitReport format report

/-- Shows what the analysis of a path file finds. -/
def runInspect (file : String) : Step UInt32 := do
  let format ← chosenFormat
  let run ← get
  let path ← orFail Path.Refusal.message (Path.ofFile run.files file)
  emit RenderError.message ((Profile.ofPath path).inspect.render run.colours format)
  return 0

/-- The cells for an entry of a history. Times are universal times. -/
def entryCells (e : HistoryEntry) : List String :=
  [e.id, { e.startedAt with offset := 0 }.clockText " ", e.programA, e.programB,
    e.verdict.name ++ (if e.incomplete then " (incomplete)" else ""), toString e.pairs,
    toString e.unmatched]

/-- The table of the entries of a history. -/
def entryTable (es : List HistoryEntry) : Text.Table where
  wrapped := true
  header := ["ID", "Started", "Program A", "Program B", "Verdict", "Pairs", "Unmatched"]
  rows := es.map entryCells

/-- Lists a history, shows a report of it, or deletes one. -/
def runHistory : Step UInt32 := do
  let options := (← get).options
  let dir := options.store
  if dir = "" then throw "--store is required"
  let format ← chosenFormat
  let (past, files) ← orFail History.OpenError.message (History.openAt (← get).files dir)
  modify fun r => { r with files }
  if options.delete ≠ "" then
    let (deleted, past) := (History.delete options.delete).run.run past
    orFail HistoryError.message deleted
    modify fun r => { r with files := History.saveAt r.files dir past }
    note ("deleted report " ++ options.delete)
    return 0
  else if options.showReport ≠ "" then
    let report ← orFail HistoryError.message (past.get options.showReport)
    let _ ← emitReport format report
    return 0
  else
    let entries := past.list options.limit
    if entries.isEmpty then note "no reports stored"
    else emit id (.ok (entryTable entries).text)
    return 0

/-- Shows the help on the command that some words name. -/
def runHelp (topic : List String) : Step UInt32 := do
  match findCommand topic with
  | .ok (c, _) => print c.helpText
  | .error _ =>
    note ("Unknown help topic [`" ++ String.intercalate "` `" topic ++ "`]")
    note Command.root.usage
  return 0

/-- Runs a command on its further words. -/
def perform (c : Command) (others : List String) : Step UInt32 :=
  match c, others with
  | .compare, a :: b :: _ => runCompare P a b
  | .pair, a :: b :: _ => runPair P a b
  | .inspect, file :: _ => runInspect file
  | .history, _ => runHistory
  | .help, topic => runHelp topic
  | c, _ => do
    print c.helpText
    return 0

/-- Runs the program without its messages on errors. -/
def runArguments (arguments : List String) : Step UInt32 := do
  let (c, arguments) ← orFail UsageError.message (findCommand arguments)
  let r ← orFail FlagError.message (readArguments (.help :: c.flags) .start arguments)
  modify fun run => { run with options := r.options }
  if r.options.help || c = .root || c = .completion && r.others.isEmpty then
    print c.helpText
    return 0
  else
    orFail UsageError.message (checkArity c r.others)
    perform P c r.others

/-- Runs the program. -/
def run (s : Surroundings) (arguments : List String) : Outcome :=
  let start : Run := ⟨{}, s.now, s.elapsed, s.isTerminal, s.files, "", ""⟩
  match (runArguments P arguments).run.run start with
  | (.ok status, r) => ⟨status, r.output, r.errors, r.files⟩
  | (.error message, r) => ⟨2, r.output, r.errors ++ "error: " ++ message ++ "\n", r.files⟩

end

end Pathwise.Command
