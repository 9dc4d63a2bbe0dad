import Pathwise.Command.Run
import Std.Time.DateTime.Timestamp

/-!
# The program

The outermost layer: it looks at the files that the arguments name, runs, writes the files that have
changed, prints, and ends with the exit status.
-/

namespace Pathwise

/-- The names that an argument can stand for: itself, and what follows an equals sign or the letter
of a flag. -/
def namesIn (argument : String) : List String :=
  let cs := argument.toList
  let value := match Text.cut? (· == '=') cs with
    | some (_, v) => [String.ofList v]
    | none => []
  [argument, String.ofList (cs.drop 2)] ++ value

/-- Adds a file to a tree, if there is one with this name that can be read. -/
def withFile (t : FileTree) (name : String) : IO FileTree := do
  let place := (← IO.currentDir) / name
  if ← place.pathExists then
    if ← place.isDir then return t.add (name ++ "/") ""
    else
      return t.add name ⟨(← IO.FS.readBinFile place).toList⟩
  else return t

/-- Adds what stands at a name to a tree, with the directories above it and the files in it. -/
def withName (t : FileTree) (name : String) : IO FileTree := do
  if name == "" then return t
  let mut t := t
  for part in FileTree.placesAbove (Files.parts name) do
    t ← withFile t (String.intercalate "/" part)
  t ← withFile t name
  let place := (← IO.currentDir) / name
  if ← place.isDir then
    for entry in ← place.readDir do
      t ← withFile t (Files.join name entry.fileName)
  return t

/-- The files that some arguments name. -/
def filesFor (arguments : List String) : IO FileTree := do
  let mut t := FileTree.empty
  for name in arguments.flatMap namesIn do
    t ← withName t name
  return t

/-- Writes what a tree has and an earlier one had not. -/
def writeChanges (earlier later : FileTree) : IO Unit := do
  let here ← IO.currentDir
  for (place, e) in later.entries do
    if earlier.get? place != some e then
      let name := here / String.intercalate "/" place
      match e with
      | .directory => IO.FS.createDirAll name
      | .file contents => IO.FS.writeBinFile name ⟨contents.bytes.toArray⟩

/-- The libraries of the program. A time limit below a microsecond is over before an oracle can
answer; samples take no longer than any other limit. -/
def platform : Command.Platform where
  random := .congruential
  sorter := .stable
  verdicts := Cache.leastRecent _ _
  ending limit _ := if limit.nanoseconds < 1000 then .deadline else .answered

/-- The time since the start of 1970. -/
def currentTime : IO Instant := do
  let t ← Std.Time.Timestamp.now
  let n := t.toNanosecondsSinceUnixEpoch.val
  return ⟨n / 10 ^ 9, (n % 10 ^ 9).toNat, 0⟩

end Pathwise

/-- Runs the program on the arguments of the command line. A first run without output shows how long
a comparison takes, which the report of the second says. -/
def main (arguments : List String) : IO UInt32 := do
  let stdout ← IO.getStdout
  let files ← Pathwise.filesFor arguments
  let now ← Pathwise.currentTime
  let start ← IO.monoNanosNow
  let isTerminal ← stdout.isTty
  let untimed : Pathwise.Command.Surroundings := ⟨files, now, ⟨0⟩, isTerminal⟩
  let stop ←
    if (Pathwise.Command.run Pathwise.platform untimed arguments).status == 2 then pure start
    else IO.monoNanosNow
  let outcome := Pathwise.Command.run Pathwise.platform
    { untimed with elapsed := ⟨(stop - start : Nat)⟩ } arguments
  Pathwise.writeChanges files outcome.files
  stdout.putStr outcome.output
  (← IO.getStderr).putStr outcome.errors
  return outcome.status
