import Pathwise.Decimal.Binary
import Pathwise.Decimal.Reading
import Pathwise.Json.Basic

/-!
# Decoding JSON values

A decoder lays JSON values over a value that is already there, so that what the JSON text leaves
out keeps its value. It refuses values that do not fit.

* **Null** leaves everything as it is, except where an absent value is one of the choices.
* **Fields** are found by their name, or else by their name in other case. Fields of other names are
  passed over. A text may name a field several times; what it says there is laid one over the other.
* **Lists** are laid item over item. An item that a shorter list leaves out is kept aside, and comes
  back when a longer list follows; a list that is absent or empty clears them all.
* **Integers** have 64 bits and neither fraction nor exponent; other numbers have double precision,
  and must not be too large for it.
-/

namespace Pathwise.Json

/-- The number that a JSON number denotes, if it is not too large. -/
def toFloat? (literal : String) : Option Float :=
  let (negative, cs) :=
    match literal.toList with
    | '-' :: cs => (true, cs)
    | cs => (false, cs)
  let (whole, cs) := cs.span Text.isDigit
  let (fraction, cs) :=
    match cs with
    | '.' :: cs => cs.span Text.isDigit
    | cs => ([], cs)
  let exponent := ((Decimal.readExponent cs).map (·.1)).getD 0
  let x := (Decimal.Numeral.mk whole fraction exponent).toFloat
  match Decimal.parts x with
  | .finite _ _ _ => some (if negative then -x else x)
  | _ => none

/-- The integer that a JSON number denotes, if it has 64 bits. -/
def toInt64? (literal : String) : Option Int :=
  match Text.signed? 10 literal.toList with
  | some n => if -2 ^ 63 ≤ n ∧ n < 2 ^ 63 then some n else none
  | none => none

/-- Lays what a JSON text says about a place over the value there, one thing after the other. -/
abbrev Decoder (α : Type) := List Json → α → Option α

namespace Decoder

variable {α σ : Type}

/-- Lays one JSON value over a value. -/
def decode? (d : Decoder α) (j : Json) (old : α) : Option α :=
  d [j] old

/-- Lays one JSON value after the other over a value. -/
def each (step : Json → α → Option α) : Decoder α :=
  fun js old => js.foldlM (fun a j => step j a) old

/-- Decodes an integer of 64 bits. -/
def int : Decoder Int := each fun
  | .null, old => some old
  | .number n, _ => toInt64? n
  | _, _ => none

/-- Decodes a number of double precision. -/
def float : Decoder Float := each fun
  | .null, old => some old
  | .number n, _ => toFloat? n
  | _, _ => none

/-- Decodes a boolean. -/
def bool : Decoder Bool := each fun
  | .null, old => some old
  | .bool b, _ => some b
  | _, _ => none

/-- Decodes a string that has to have a meaning. -/
def spelled (meaning : String → Option α) : Decoder α := each fun
  | .null, old => some old
  | .string s, _ => meaning s
  | _, _ => none

/-- Decodes a string. -/
def string : Decoder String :=
  spelled some

/-- Decodes a name. -/
def named {ε : Type} (meaning : String → Except ε α) : Decoder α :=
  spelled fun s => (meaning s).toOption

/-! ### What may be absent -/

/-- Decodes what may be absent, given what has been said since it was absent last. -/
def optionalFrom (zero : α) (d : Decoder α) (old : Option α) (said : List Json) :
    List Json → Option (Option α)
  | [] => if said.isEmpty then some old else (d said (old.getD zero)).map some
  | .null :: js => (d said (old.getD zero)).bind fun _ => optionalFrom zero d none [] js
  | j :: js => optionalFrom zero d old (said ++ [j]) js

/-- Decodes what may be absent. Null makes it absent, and what follows begins anew. -/
def optional (zero : α) (d : Decoder α) : Decoder (Option α) :=
  fun js old => optionalFrom zero d old [] js

/-! ### Lists -/

/-- A list that is being decoded: the items that were there, what has been said about each place,
and how many places are in use, unless the list is absent. -/
structure Slots (α : Type) where
  before : List α
  said : List (List Json)
  used : Option Nat

/-- Adds what is said about the places from the first one on. -/
def saying : List (List Json) → List Json → List (List Json)
  | said, [] => said
  | [], j :: js => [j] :: saying [] js
  | s :: said, j :: js => (s ++ [j]) :: saying said js

/-- The items at all places, also those that are not in use. -/
def Slots.items (zero : α) (d : Decoder α) (s : Slots α) : Option (List α) :=
  s.said.zipIdx.mapM fun (js, i) => d js (s.before[i]?.getD zero)

/-- Decodes the rest of what is said about a list. -/
def listFrom (zero : α) (d : Decoder α) (s : Slots α) : List Json → Option (Option (List α))
  | [] => (s.items zero d).map fun items => s.used.map items.take
  | .null :: js => (s.items zero d).bind fun _ => listFrom zero d ⟨[], [], none⟩ js
  | .array [] :: js => (s.items zero d).bind fun _ => listFrom zero d ⟨[], [], some 0⟩ js
  | .array items :: js =>
    listFrom zero d { s with said := saying s.said items, used := some items.length } js
  | _ :: _ => none

/-- Decodes a list; null is the absent list. -/
def list (zero : α) (d : Decoder α) : Decoder (Option (List α)) :=
  fun js old =>
    let before := old.getD []
    listFrom zero d ⟨before, before.map fun _ => [], old.map List.length⟩ js

/-- Decodes a list for which it does not matter whether it is absent or empty. -/
def plainList (zero : α) (d : Decoder α) : Decoder (List α) :=
  fun js old => (list zero d js (some old)).map (·.getD [])

/-! ### Records -/

/-- A character in which names of fields are compared: letters without their case. -/
def foldedChar (c : Char) : Char :=
  if c.toNat = 0x212A then 'k' else if c.toNat = 0x17F then 's' else c.toLower

/-- Whether two names of fields differ at most in case. -/
def sameName (a b : String) : Bool :=
  a.toList.map foldedChar == b.toList.map foldedChar

/-- A field of a record: its name, and how JSON values are laid over the record there. -/
structure Field (σ : Type) where
  name : String
  decoder : Decoder σ

/-- A field that is read by `get` and written by `set`. -/
def Field.of (name : String) (d : Decoder α) (get : σ → α) (set : σ → α → σ) : Field σ :=
  ⟨name, fun js s => (d js (get s)).map (set s)⟩

/-- The field that a name belongs to. -/
def fieldFor? (fields : List (Field σ)) (name : String) : Option (Field σ) :=
  (fields.find? (·.name == name)).or (fields.find? (sameName ·.name name))

/-- The fields that JSON values have, in order. -/
def fieldsOf? : List Json → Option (List (String × Json))
  | [] => some []
  | .null :: js => fieldsOf? js
  | .object fs :: js => (fieldsOf? js).map (fs ++ ·)
  | _ :: _ => none

/-- Decodes a record field by field. -/
def record (fields : List (Field σ)) : Decoder σ :=
  fun js old => do
    let given ← fieldsOf? js
    fields.foldlM (fun s f =>
      let said := given.filter fun (name, _) => (fieldFor? fields name).any (·.name == f.name)
      f.decoder (said.map (·.2)) s) old

end Decoder

end Pathwise.Json
