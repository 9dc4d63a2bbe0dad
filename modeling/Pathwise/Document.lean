import Pathwise.Json.Writer
import Pathwise.Time.Duration
import Pathwise.Time.Instant

/-!
# Documents

What is written as JSON or as YAML is first put together as a document, whose scalars still have
their meaning: the two formats write numbers, instants, durations and absent lists differently.
-/

namespace Pathwise

/-- A document. -/
inductive Document where
  | null
  | bool (value : Bool)
  | int (value : Int)
  | float (value : Float)
  | text (value : String)
  | instant (value : Instant)
  | duration (value : Duration)
  | absentList
  | list (items : List Document)
  | record (fields : List (String × Document))
  deriving Inhabited

namespace Document

/-- A list that is absent if there is none. -/
def optionalList {α : Type} (f : α → Document) : Option (List α) → Document
  | none => absentList
  | some xs => list (xs.map f)

/-- A list that is absent if it is empty. -/
def listOrAbsent {α : Type} (f : α → Document) (xs : List α) : Document :=
  if xs.isEmpty then absentList else list (xs.map f)

/-- A field that is always there. -/
def field (name : String) (d : Document) : Option (String × Document) :=
  some (name, d)

/-- A field that is left out on a condition. -/
def fieldUnless (leaveOut : Bool) (name : String) (d : Document) : Option (String × Document) :=
  if leaveOut then none else some (name, d)

/-- A record of the fields that are there. -/
def ofFields (fs : List (Option (String × Document))) : Document :=
  record (fs.filterMap id)

/-- Why a document cannot be written as JSON. -/
inductive EncodeError where
  | notFinite (value : Float)
  | offset
  deriving Repr, Inhabited

/-- The wording of an error. -/
def EncodeError.message : EncodeError → String
  | notFinite x => "json: unsupported value: " ++ Json.numberStyle.write x
  | offset =>
    "json: error calling MarshalJSON for type time.Time: Time.MarshalJSON: " ++
      "timezone hour outside of range [0,23]"

mutual

/-- A document as a JSON value. -/
def toJson : Document → Except EncodeError Json
  | null => .ok .null
  | bool b => .ok (.bool b)
  | int n => .ok (.int n)
  | float x =>
    match Json.float? x with
    | some j => .ok j
    | none => .error (.notFinite x)
  | text s => .ok (.string s)
  | instant t => if t.hasPlainOffset then .ok (.string t.text) else .error .offset
  | duration d => .ok (.int d.nanoseconds)
  | absentList => .ok .null
  | list items => return .array (← itemsToJson items)
  | record fields => return .object (← fieldsToJson fields)

/-- Documents as JSON values. -/
def itemsToJson : List Document → Except EncodeError (List Json)
  | [] => .ok []
  | d :: ds => do
    let j ← toJson d
    let js ← itemsToJson ds
    return j :: js

/-- Fields of a record as those of a JSON object. -/
def fieldsToJson : List (String × Document) → Except EncodeError (List (String × Json))
  | [] => .ok []
  | (name, d) :: ds => do
    let j ← toJson d
    let js ← fieldsToJson ds
    return (name, j) :: js

end

end Document

end Pathwise
