/-!
# Names of files

Names with slashes between their parts, and operations on them that do not look at any files.
-/

namespace Pathwise.Files

/-- The parts of a name between its slashes. -/
def splitName (name : List Char) : List (List Char) :=
  match name with
  | [] => [[]]
  | c :: cs =>
    match splitName cs with
    | [] => []
    | part :: parts => if c = '/' then [] :: part :: parts else (c :: part) :: parts

/-- Whether a name starts at the root. -/
def isRooted (name : String) : Bool :=
  name.toList.head? == some '/'

/-- Drops the parts that do not matter: empty ones, single dots, and parts before two dots. Given
are the parts before, the last one first. -/
def cleanParts (rooted : Bool) (before : List String) : List String → List String
  | [] => before.reverse
  | part :: parts =>
    if part = "" || part = "." then cleanParts rooted before parts
    else if part = ".." then
      match before with
      | [] => cleanParts rooted (if rooted then [] else [".."]) parts
      | last :: rest =>
        if last = ".." then cleanParts rooted (".." :: before) parts
        else cleanParts rooted rest parts
    else cleanParts rooted (part :: before) parts

/-- The parts of a name. -/
def parts (name : String) : List String :=
  (splitName name.toList).map String.ofList

/-- The shortest name for the same place. -/
def clean (name : String) : String :=
  let kept := String.intercalate "/" (cleanParts (isRooted name) [] (parts name))
  if isRooted name then "/" ++ kept else if kept = "" then "." else kept

/-- The last part of a name. -/
def base (name : String) : String :=
  match (parts name).reverse.dropWhile (· == "") with
  | [] => if name = "" then "." else "/"
  | part :: _ => part

/-- The name without its last part. -/
def directory (name : String) : String :=
  let before := (parts name).dropLast
  if before.isEmpty then "." else clean (String.intercalate "/" before ++ "/")

/-- The name of a file in a directory. -/
def join (dir name : String) : String :=
  if dir = "" then clean name else clean (dir ++ "/" ++ name)

end Pathwise.Files
