/-!
# Keys in byte order

Keys are lists of bytes, compared byte by byte. All keys that begin with a given one lie together:
from that key on, and below the key that `beyond?` gives.
-/

namespace Pathwise

/-- A key: the bytes of a text. -/
abbrev Key := List UInt8

namespace Key

/-- The key of a text. -/
def ofText (s : String) : Key :=
  s.toUTF8.toList

/-- Whether a key comes before another in byte order. -/
def before : Key → Key → Bool
  | [], [] => false
  | [], _ :: _ => true
  | _ :: _, [] => false
  | a :: as, b :: bs => a < b || (a == b && before as bs)

/-- The least key above all that begin with a given one. There is none if all its bytes are 255. -/
def beyond? : Key → Option Key
  | [] => none
  | b :: bs =>
    match beyond? bs with
    | some e => some (b :: e)
    | none => if b = 255 then none else some [b + 1]

/-- Whether a key lies from a lower bound on and below an upper one, if there is one. -/
def inRange (low : Key) (high? : Option Key) (k : Key) : Bool :=
  !before k low && high?.all (before k ·)

end Key

/-- A map whose keys are in byte order. -/
structure KeyMap (α : Type) where
  entries : List (Key × α)
  deriving Repr, Inhabited

namespace KeyMap

variable {α : Type}

/-- The map without entries. -/
def empty : KeyMap α :=
  ⟨[]⟩

/-- The value at a key. -/
def get? (m : KeyMap α) (k : Key) : Option α :=
  m.entries.lookup k

/-- Entries with one more, or another value at its key. -/
def insertEntry (k : Key) (v : α) : List (Key × α) → List (Key × α)
  | [] => [(k, v)]
  | (l, w) :: es =>
    if k.before l then (k, v) :: (l, w) :: es
    else if k = l then (k, v) :: es
    else (l, w) :: insertEntry k v es

/-- Sets the value at a key. -/
def insert (m : KeyMap α) (k : Key) (v : α) : KeyMap α :=
  ⟨insertEntry k v m.entries⟩

/-- Takes a key out. -/
def erase (m : KeyMap α) (k : Key) : KeyMap α :=
  ⟨m.entries.filter (·.1 != k)⟩

/-- The entries whose keys begin with a given one, in byte order. -/
def beginningWith (m : KeyMap α) (k : Key) : List (Key × α) :=
  m.entries.filter fun e => Key.inRange k k.beyond? e.1

end KeyMap

end Pathwise
