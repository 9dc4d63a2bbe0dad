import Pathwise.Files.Tree
import Pathwise.History.Basic

/-!
# Histories in files

A history has a directory, in which one file holds all its keys and values as JSON.
-/

namespace Pathwise

/-- Why a directory cannot be made: what was tried with which name, and what went wrong. -/
structure DirectoryError where
  attempt : String
  name : String
  fault : FileFault
  deriving Repr, DecidableEq, Inhabited

/-- The wording of an error. -/
def DirectoryError.message (e : DirectoryError) : String :=
  e.attempt ++ " " ++ e.name ++ ": " ++ e.fault.reason

namespace FileTree

/-- Looks for the nearest directory above a name that is there. Only missing ones are passed over.
There are no more of them than parts. -/
def checkAbove (t : FileTree) (name : String) : Nat → Except DirectoryError Unit
  | 0 => .ok ()
  | fuel + 1 =>
    let above := Files.directory name
    if Files.directory above = above then .ok ()
    else
      match t.find above with
      | .ok _ => .ok ()
      | .error .missing => t.checkAbove above fuel
      | .error f => .error ⟨"stat", above, f⟩

/-- The names of the directories on the way to a name, which end with a slash, and the name. -/
def namesOnWay (name : String) : List String :=
  let parts := Files.parts name
  let count := ((parts.reverse.dropWhile (· == "")).reverse).length
  (List.range count).map fun n =>
    if n + 1 = count then name else String.intercalate "/" (parts.take (n + 1)) ++ "/"

/-- Makes a directory and those above it. -/
def makeDirectories (t : FileTree) (name : String) : Except DirectoryError FileTree := do
  t.checkAbove name (Files.parts name).length
  match t.find name with
  | .ok (_, .directory) => return t
  | _ =>
    (namesOnWay name).foldlM (fun t n => (t.makeDirectory n).mapError (⟨"mkdir", n, ·⟩)) t

end FileTree

namespace History

/-- The file of a history in its directory. -/
def fileName (dir : String) : String :=
  dir ++ "/history.json"

/-- The text of a key. -/
def keyText (k : Key) : String :=
  (String.fromUTF8? ⟨k.toArray⟩).getD ""

/-- A history as JSON: a list of keys with the texts of their values. -/
def toJson (h : History) : Json :=
  .array (h.values.entries.filterMap fun (k, v) =>
    v.toText.toOption.map fun s => .array [.string (keyText k), .string s])

/-- The history that a JSON value denotes. -/
def ofJson : Json → History
  | .array items =>
    ⟨items.foldl (fun m j =>
      match j with
      | .array [.string k, .string s] => m.insert (.ofText k) (.text s)
      | _ => m) .empty⟩
  | _ => .empty

/-- Why a history cannot be opened: its directory cannot be made. -/
structure OpenError where
  dir : String
  cause : DirectoryError
  deriving Repr, DecidableEq, Inhabited

/-- The wording of an error. -/
def OpenError.message (e : OpenError) : String :=
  "failed to open report store " ++ Text.quoted e.dir ++ ": error opening database at " ++
    Text.quoted e.dir ++ ": " ++ e.cause.message

/-- The history in a directory, which is made if it is not there. -/
def openAt (t : FileTree) (dir : String) : Except OpenError (History × FileTree) := do
  let t ← (t.makeDirectories dir).mapError (OpenError.mk dir)
  match ((t.contentsOf (fileName dir)).toOption.bind Text.Raw.text?).bind Json.read? with
  | some j => return (ofJson j, t)
  | none => return (empty, t)

/-- Writes a history to its directory. -/
def saveAt (t : FileTree) (dir : String) (h : History) : FileTree :=
  (t.write (fileName dir) h.toJson.compact).toOption.getD t

end History

end Pathwise
