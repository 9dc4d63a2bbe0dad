/-!
# JSON values

Values as JSON texts denote them. A number is kept as it is written, so that none is rounded before
its reader decides what it should be; the fields of an object keep their order.
-/

namespace Pathwise

/-- A JSON value. -/
inductive Json where
  | null
  | bool (value : Bool)
  | number (literal : String)
  | string (value : String)
  | array (items : List Json)
  | object (fields : List (String × Json))
  deriving Repr, Inhabited

namespace Json

/-- An integer as a JSON number. -/
def int (n : Int) : Json :=
  number (toString n)

/-- The fields of an object; other values have none. -/
def fields : Json → List (String × Json)
  | object fs => fs
  | _ => []

/-- The value of the last field with a given name. -/
def field? (name : String) (j : Json) : Option Json :=
  j.fields.reverse.lookup name

/-- An object of the fields that are given. -/
def ofFields (fs : List (Option (String × Json))) : Json :=
  object (fs.filterMap id)

end Json

end Pathwise
