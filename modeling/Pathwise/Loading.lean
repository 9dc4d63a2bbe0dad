import Pathwise.Files.Pattern
import Pathwise.Files.Tree
import Pathwise.Path.Parse
import Pathwise.Program

/-!
# Loading programs

A program is loaded from the files of a directory, one path a file. Hidden files are passed over,
and files that are no paths are noted and left out. Files are read in the order of the index in
their name, and then of the name itself, so that the order in which they are listed does not matter.

Paths keep the index that they give themselves if no path before them has it. The others get the
least positive numbers that are free.
-/

namespace Pathwise

/-- Why the paths of a program are not available. -/
inductive LoadError where
  | directory (dir : String) (fault : FileFault)
  | noPaths (program : String)
  | cancelled
  deriving Repr, DecidableEq, Inhabited

/-- The wording of an error. -/
def LoadError.message : LoadError → String
  | directory dir f => "failed to read path directory: " ++ f.message dir
  | noPaths program => program ++ ": no usable path files"
  | cancelled => "context canceled"

namespace Path

/-- Reads a path file. Stray bytes are read as the character that stands for them. -/
def ofFile (t : FileTree) (file : String) : Except Refusal Path :=
  let name := Files.base file
  match t.contentsOf file with
  | .error .isDirectory =>
    .error ⟨name, 0, .unreadable
      ("failed to read " ++ name ++ ": " ++ FileFault.isDirectory.message file)⟩
  | .error f => .error ⟨name, 0, .unreadable ("failed to open path file: " ++ f.message file)⟩
  | .ok contents => (parse contents.shown name).map fun p => { p with source := file }

end Path

namespace Loading

/-- The index in the name of a file, or -1. -/
def fileIndex (file : String) : Int :=
  match Path.nameIndex? (Files.base file) with
  | some n => n
  | none => -1

/-- Whether a file is read before another, or is the same. -/
def readBefore (a b : String) : Bool :=
  if fileIndex a ≠ fileIndex b then fileIndex a < fileIndex b else a ≤ b

/-- Files in the order in which they are read. -/
def sorted (files : List String) : List String :=
  files.mergeSort readBefore

/-- The least number from `n` on that is not taken. The fuel is the number of the taken ones. -/
def nextFree (taken : List Int) : Nat → Nat → Nat
  | 0, n => n
  | fuel + 1, n => if (n : Int) ∈ taken then nextFree taken fuel (n + 1) else n

/-- The paths that keep their index, or nothing in the place of those that do not. Given are the
indices of the paths before. -/
def kept (taken : List Int) : List Profile → List (Profile × Bool)
  | [] => []
  | p :: ps =>
    if p.path.index < 0 || p.path.index ∈ taken then (p, false) :: kept taken ps
    else (p, true) :: kept (p.path.index :: taken) ps

/-- A path with another index. -/
def withIndex (p : Profile) (index : Int) : Profile :=
  { p with path := { p.path with index } }

/-- Gives the paths that did not keep their index the least numbers that are free. -/
def fill (taken : List Int) : List (Profile × Bool) → List Profile
  | [] => []
  | (p, true) :: ps => p :: fill taken ps
  | (p, false) :: ps =>
    let n := nextFree taken taken.length 1
    withIndex p n :: fill ((n : Int) :: taken) ps

/-- Paths with an index each, sorted by it. -/
def indexed (paths : List Profile) : List Profile :=
  let marked := kept [] paths
  let taken := (marked.filter (·.2)).map (·.1.path.index)
  (fill taken marked).mergeSort fun p q => p.path.index ≤ q.path.index

/-- Loads files as the paths of a program. -/
def loadFiles (t : FileTree) (program : String) (files : List String) : PathSet :=
  let files := sorted files
  let read := files.map (Path.ofFile t)
  { program
    dir := (files.head?.map Files.directory).getD ""
    files := files.length
    paths := indexed ((read.filterMap Except.toOption).map Profile.ofPath)
    errors := read.filterMap fun r =>
      match r with
      | .error e => some e
      | .ok _ => none }

/-- Loads files, unless the context has ended. A program without paths is an error too, but comes
with what was found. -/
def load (t : FileTree) (ctx : Context) (program : String) (files : List String) :
    Option PathSet × Option LoadError :=
  if ctx == .cancelled && !files.isEmpty then (none, some .cancelled)
  else
    let set := loadFiles t program files
    (some set, if set.paths.isEmpty then some (.noPaths program) else none)

/-- Whether an entry of a directory is taken for a path file. -/
def isPathFile (pattern : Text.Raw) (name : String) (e : FileEntry) : Bool :=
  e != .directory && name.toList.head? != some '.' &&
    (pattern.isEmpty || Files.matchesPattern pattern name)

/-- The name of a program in a directory. -/
def programName (dir : String) : String :=
  Files.base (Files.clean dir)

/-- Loads the path files of a directory. -/
def loadDirectory (t : FileTree) (ctx : Context) (pattern : Text.Raw) (dir : String) :
    Option PathSet × Option LoadError :=
  match t.readDirectory dir with
  | .error f => (none, some (.directory dir f))
  | .ok entries =>
    let names := (entries.filter fun (name, e) => isPathFile pattern name e).map (·.1)
    load t ctx (programName dir) (names.map (Files.join dir))

end Loading

/-! ### Comparing directories -/

/-- A side of a comparison without any paths. -/
structure Unavailable where
  side : String
  program : String
  cause : LoadError
  deriving Repr, DecidableEq, Inhabited

/-- The wording of the error. -/
def Unavailable.message (u : Unavailable) : String :=
  "program " ++ u.side ++ " (" ++ u.program ++ "): no paths available: " ++ u.cause.message

namespace Session

/-- What a side of a comparison came to. If loading was cancelled, it is empty. -/
def sideOf (side dir : String) (loaded : Option PathSet × Option LoadError) :
    Except Unavailable PathSet :=
  match loaded with
  | (some set, none) => .ok set
  | (none, none) => .ok { PathSet.ofPaths (Loading.programName dir) [] with dir }
  | (_, some .cancelled) => .ok { PathSet.ofPaths (Loading.programName dir) [] with dir }
  | (set, some e) => .error ⟨side, (set.map (·.program)).getD dir, e⟩

/-- Counts the files that were left out. -/
def countErrors {M : VerdictMap} (set : Option PathSet) (st : Session M) : Session M :=
  { st with metrics := st.metrics.add .fileError ((set.map (·.errors.length)).getD 0) }

/-- Loads two directories and compares the programs in them. -/
def compareDirectories {M : VerdictMap} (s : Settings) (course : Course) (pattern : Text.Raw)
    (started : Instant) (elapsed : Duration) (t : FileTree) (dirA dirB : String) (st : Session M) :
    Except Unavailable Report × Session M :=
  let a := Loading.loadDirectory t course.ctx pattern dirA
  let b := Loading.loadDirectory t course.ctx pattern dirB
  let st := (st.countErrors a.1).countErrors b.1
  match sideOf "A" dirA a, sideOf "B" dirB b with
  | .ok setA, .ok setB =>
    let (r, st) := st.compareSets s course started elapsed setA setB
    (.ok r, st)
  | .error e, _ => (.error e, st)
  | _, .error e => (.error e, st)

end Session

end Pathwise
