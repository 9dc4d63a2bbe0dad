import Pathwise.Files.Name
import Pathwise.Text.Raw

/-!
# File trees

The files that a program can see, as a value. A place is given by the parts of its name; every
directory above a file is there.
-/

namespace Pathwise

/-- What stands at a place. -/
inductive FileEntry where
  | file (contents : Text.Raw)
  | directory
  deriving Repr, DecidableEq, Inhabited

/-- Files and directories by their places. The directory in which the program runs is the place
without parts; it, the directories above it, the root and the devices are always there. -/
structure FileTree where
  entries : List (List String × FileEntry)
  deriving Repr, Inhabited

/-- What goes wrong with a file. -/
inductive FileFault where
  | missing
  | notDirectory
  | isDirectory
  | longName
  | badName
  | alreadyThere
  deriving Repr, DecidableEq, Inhabited

/-- What is wrong, in words. -/
def FileFault.reason : FileFault → String
  | missing => "no such file or directory"
  | notDirectory => "not a directory"
  | isDirectory => "is a directory"
  | longName => "file name too long"
  | badName => "invalid argument"
  | alreadyThere => "file exists"

/-- The wording of a fault when a file is read. That it is a directory shows only after opening. -/
def FileFault.message (name : String) (f : FileFault) : String :=
  (if f = isDirectory then "read " else "open ") ++ name ++ ": " ++ f.reason

namespace FileTree

/-- The tree without files. -/
def empty : FileTree :=
  ⟨[]⟩

/-- The directory of the devices. -/
def deviceDirectory : List String :=
  ["/", "dev"]

/-- The device that stands for the output of the program. -/
def outputDevice : List String :=
  deviceDirectory ++ ["stdout"]

/-- The device that stands for what the program prints beside its output. -/
def errorDevice : List String :=
  deviceDirectory ++ ["stderr"]

/-- The devices: nothing can be read from them, and what is written to them is not kept. -/
def devices : List (List String) :=
  [deviceDirectory ++ ["null"], deviceDirectory ++ ["stdin"], outputDevice, errorDevice]

/-- What stands at a place. -/
def get? (t : FileTree) (place : List String) : Option FileEntry :=
  if place.all (· == "..") || place = ["/"] || place = deviceDirectory then some .directory
  else if devices.contains place then some (.file "")
  else t.entries.lookup place

/-- The place above a place. -/
def placeAbove (place : List String) : List String :=
  match place.getLast? with
  | none => [".."]
  | some part =>
    if part = ".." then place ++ [".."] else if part = "/" then place else place.dropLast

/-- Puts something at a place. What is written to a device is gone. -/
def put (t : FileTree) (place : List String) (e : FileEntry) : FileTree :=
  if devices.contains place then t else ⟨t.entries.filter (·.1 != place) ++ [(place, e)]⟩

/-- The places above a place, from the top. -/
def placesAbove (place : List String) : List (List String) :=
  (List.range place.length).filterMap fun n => if n = 0 then none else some (place.take n)

/-- Makes sure that the directories above a place are there. -/
def makeParents (t : FileTree) (place : List String) : FileTree :=
  (placesAbove place).foldl
    (fun t p => if (t.get? p).isSome then t else t.put p .directory) t

/-- The place of a name that is written out plainly. -/
def placeOf (name : String) : List String :=
  Files.cleanParts (Files.isRooted name) (if Files.isRooted name then ["/"] else [])
    (Files.parts name)

/-- Whether a name can stand for directories only, as it ends with a slash. -/
def endsWithSlash (name : String) : Bool :=
  name.toList.getLast? == some '/'

/-- Adds a file, or a directory if the name ends with a slash, and the directories above it. -/
def add (t : FileTree) (name : String) (contents : Text.Raw) : FileTree :=
  let place := placeOf name
  if place.isEmpty then t
  else
    (t.makeParents place).put place (if endsWithSlash name then .directory else .file contents)

/-- How many bytes a part of a name can have. -/
def partLimit : Nat := 255

/-- How many bytes a whole name can have. -/
def nameLimit : Nat := 4095

/-- Checks what is wrong with a name by itself. -/
def checkName (name : String) : Except FileFault Unit := do
  if name.toList.any (·.toNat == 0) then throw .badName
  if name = "" then throw .missing
  if nameLimit < name.utf8ByteSize then throw .longName

/-- Follows the parts of a name from a directory. -/
def walk (t : FileTree) (place : List String) : List String → Except FileFault (List String)
  | [] => .ok place
  | part :: parts =>
    match t.get? place with
    | none => .error .missing
    | some (.file _) => .error .notDirectory
    | some .directory =>
      if part = "" || part = "." then t.walk place parts
      else if part = ".." then t.walk (placeAbove place) parts
      else if partLimit < part.utf8ByteSize then .error .longName
      else t.walk (place ++ [part]) parts

/-- Where the parts of a name lead from. -/
def startOf (name : String) : List String :=
  if Files.isRooted name then ["/"] else []

/-- What a name stands for. -/
def find (t : FileTree) (name : String) : Except FileFault (List String × FileEntry) := do
  checkName name
  let place ← t.walk (startOf name) (Files.parts name)
  match t.get? place with
  | some e => return (place, e)
  | none => throw .missing

/-- The contents of a file. -/
def contentsOf (t : FileTree) (name : String) : Except FileFault Text.Raw := do
  match ← t.find name with
  | (_, .file contents) => return contents
  | (_, .directory) => throw .isDirectory

/-- The entries of a directory by their names, in the order of the names. -/
def readDirectory (t : FileTree) (name : String) :
    Except FileFault (List (String × FileEntry)) := do
  match ← t.find name with
  | (_, .file _) => throw .notDirectory
  | (place, .directory) =>
    let inside := t.entries.filterMap fun (p, e) =>
      match p.getLast? with
      | some last => if p.dropLast = place then some (last, e) else none
      | none => none
    return inside.mergeSort fun a b => a.1 ≤ b.1

/-- Where something of a name can be made: its place, or none if the name ends with dots and so
stands for a directory. The directory above it has to be there. -/
def placeFor (t : FileTree) (name : String) : Except FileFault (Option (List String)) := do
  checkName name
  let parts := ((Files.parts name).reverse.dropWhile (· == "")).reverse
  let above ← t.walk (startOf name) parts.dropLast
  match t.get? above, parts.getLast? with
  | none, _ => throw .missing
  | some (.file _), _ => throw .notDirectory
  | some .directory, none => return none
  | some .directory, some last =>
    if last = "." || last = ".." then return none
    return some (above ++ [last])

/-- Whether the last part of a place is too long. -/
def isTooLong (place : List String) : Bool :=
  place.getLast?.any fun last => partLimit < last.utf8ByteSize

/-- Writes a file. -/
def write (t : FileTree) (name contents : String) : Except FileFault FileTree := do
  match ← t.placeFor name with
  | none => throw .isDirectory
  | some place =>
    if endsWithSlash name then throw .isDirectory
    if isTooLong place then throw .longName
    if t.get? place = some .directory then throw .isDirectory
    return t.put place (.file contents)

/-- Makes a directory, unless it is there. -/
def makeDirectory (t : FileTree) (name : String) : Except FileFault FileTree :=
  match t.find name with
  | .ok (_, .directory) => .ok t
  | .ok (_, .file _) => .error .notDirectory
  | .error _ => do
    match ← t.placeFor name with
    | none => return t
    | some place =>
      if isTooLong place then throw .longName
      if (t.get? place).isSome then throw .alreadyThere
      return t.put place .directory

end FileTree

end Pathwise
