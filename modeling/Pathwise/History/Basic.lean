import Pathwise.History.Key
import Pathwise.Report.Encoding
import Pathwise.Json.Reader

/-!
# The history of reports

Reports are kept by their ids. Beside each stands an entry for lists, under a key that begins with
the time at which the comparison started, so that the order of the keys is that of time.

* `report:ID` holds a report.
* `time:NANOSECONDS:ID` holds its entry, with twenty places for the nanoseconds since the start of
  1970.

A call collects its changes in a batch and commits them last.
-/

namespace Pathwise

open Document (field fieldUnless ofFields)
open Json (Decoder)

/-! ### Entries -/

/-- What a list says about a report. -/
structure HistoryEntry where
  id : String
  programA : String
  programB : String
  verdict : ProgramVerdict
  pairs : Int
  unmatched : Int
  incomplete : Bool
  startedAt : Instant
  deriving Repr, DecidableEq, Inhabited

/-- What a list says about a report. -/
def Report.entry (r : Report) : HistoryEntry where
  id := r.id
  programA := r.programA
  programB := r.programB
  verdict := r.summary.verdict
  pairs := r.summary.pairs
  unmatched := r.summary.unmatchedCount
  incomplete := r.summary.incomplete
  startedAt := r.startedAt

namespace HistoryEntry

/-- An entry as a document. -/
def toDocument (e : HistoryEntry) : Document :=
  ofFields [field "id" (.text e.id), field "program_a" (.text e.programA),
    field "program_b" (.text e.programB), field "verdict" (.text e.verdict.name),
    field "pairs" (.int e.pairs), field "unmatched" (.int e.unmatched),
    fieldUnless (!e.incomplete) "incomplete" (.bool e.incomplete),
    field "started_at" (.instant e.startedAt)]

/-- The entry about which nothing is known. -/
def zero : HistoryEntry :=
  ⟨"", "", "", .partiallyEquivalent, 0, 0, false, .zero⟩

/-- Decodes an entry. -/
def decoder : Decoder HistoryEntry :=
  .record [
    .of "id" .string (·.id) ({ · with id := · }),
    .of "program_a" .string (·.programA) ({ · with programA := · }),
    .of "program_b" .string (·.programB) ({ · with programB := · }),
    .of "verdict" (.named ProgramVerdict.ofName) (·.verdict) ({ · with verdict := · }),
    .of "pairs" .int (·.pairs) ({ · with pairs := · }),
    .of "unmatched" .int (·.unmatched) ({ · with unmatched := · }),
    .of "incomplete" .bool (·.incomplete) ({ · with incomplete := · }),
    .of "started_at" Instant.decoder (·.startedAt) ({ · with startedAt := · })]

end HistoryEntry

/-! ### What is kept -/

/-- A value of the history: a report, an entry, or a text from outside that should be one of these
in JSON. -/
inductive Kept where
  | report (value : Report)
  | entry (value : HistoryEntry)
  | text (contents : String)
  deriving Repr, Inhabited

namespace Kept

/-- The JSON text of a value. -/
def toText : Kept → Except Document.EncodeError String
  | report r => r.toDocument.toJson.map (·.compact)
  | entry e => e.toDocument.toJson.map (·.compact)
  | text s => .ok s

/-- The JSON value that a kept value has. -/
def json? (k : Kept) : Option Json :=
  k.toText.toOption.bind Json.read?

/-- The report that a value is. -/
def report? : Kept → Option Report
  | report r => some r
  | k => k.json?.bind Report.ofJson?

/-- The entry that a value is. -/
def listing? : Kept → Option HistoryEntry
  | entry e => some e
  | k => k.json?.bind fun j => HistoryEntry.decoder.decode? j .zero

end Kept

/-! ### Histories -/

/-- A history of reports. -/
structure History where
  values : KeyMap Kept
  deriving Repr, Inhabited

/-- Why an operation on a history fails. -/
inductive HistoryError where
  | noId
  | notFound (id : String)
  | unreadable (id : String)
  | encode (id : String) (cause : Document.EncodeError)
  | encodeEntry (id : String) (cause : Document.EncodeError)
  deriving Repr, Inhabited

/-- The wording of an error. -/
def HistoryError.message : HistoryError → String
  | noId => "report has no id"
  | notFound id => id ++ ": report not found"
  | unreadable id => "failed to decode report " ++ id
  | encode id e => "failed to encode report " ++ id ++ ": " ++ e.message
  | encodeEntry id e => "failed to encode entry " ++ id ++ ": " ++ e.message

namespace History

/-- The history without reports. -/
def empty : History :=
  ⟨.empty⟩

/-- The key of a report. -/
def reportKey (id : String) : Key :=
  .ofText ("report:" ++ id)

/-- What the keys of entries begin with. -/
def entryRoot : Key :=
  .ofText "time:"

/-- The key of an entry. -/
def entryKey (startedAt : Instant) (id : String) : Key :=
  .ofText ("time:" ++ Text.padded 20 startedAt.unixNanoseconds ++ ":" ++ id)

/-- The report with an id. -/
def get (h : History) (id : String) : Except HistoryError Report :=
  match h.values.get? (reportKey id) with
  | none => .error (.notFound id)
  | some v =>
    match v.report? with
    | none => .error (.unreadable id)
    | some r => .ok r

/-! ### Calls -/

/-- A change of what is kept under one key. -/
inductive Change where
  | set (key : Key) (value : Kept)
  | delete (key : Key)
  deriving Repr, Inhabited

/-- Makes a change. -/
def Change.apply (values : KeyMap Kept) : Change → KeyMap Kept
  | set k v => values.insert k v
  | delete k => values.erase k

/-- What a call does to a history. It can fail, and what it has changed by then stays changed. -/
abbrev Action (α : Type) := ExceptT HistoryError (StateM History) α

/-- Makes the changes of a batch, in their order. -/
def commit (batch : List Change) : Action Unit :=
  modify fun h => ⟨batch.foldl Change.apply h.values⟩

/-- The changes that drop the entry of the report with an id, if there is one. -/
def staleChanges (id : String) : Action (List Change) := do
  match (← getThe History).get id with
  | .ok old => return [.delete (entryKey old.startedAt old.id)]
  | .error (.notFound _) => return []
  | .error e => throw e

/-- Fails if a value has no text. -/
def encode (k : Kept) (error : Document.EncodeError → HistoryError) : Action Unit :=
  match k.toText with
  | .ok _ => pure ()
  | .error e => throw (error e)

/-- Keeps a report in the place of any other with its id. -/
def put (r : Report) : Action Unit := do
  if r.id = "" then throw .noId
  let stale ← staleChanges r.id
  encode (.report r) (.encode r.id)
  let batch := stale ++ [.set (reportKey r.id) (.report r)]
  encode (.entry r.entry) (.encodeEntry r.id)
  let batch := batch ++ [.set (entryKey r.startedAt r.id) (.entry r.entry)]
  commit batch

/-- Takes out the report with an id. -/
def delete (id : String) : Action Unit := do
  match (← getThe History).get id with
  | .ok r => commit [.delete (reportKey id), .delete (entryKey r.startedAt id)]
  | .error e => throw e

/-! ### Lists -/

/-- Adds the entries that can be read, in their order, until there are as many as the limit says, or
all if it is not positive. -/
def collect (limit : Int) (found : Array HistoryEntry) :
    List (Key × Kept) → Array HistoryEntry
  | [] => found
  | (_, v) :: rest =>
    match v.listing? with
    | none => collect limit found rest
    | some e =>
      let found := found.push e
      if 0 < limit ∧ limit ≤ found.size then found else collect limit found rest

/-- The newest entries, as many as the limit says, or all if it is not positive. They stand under
the last keys. -/
def list (h : History) (limit : Int) : List HistoryEntry :=
  (collect limit #[] (h.values.beginningWith entryRoot).reverse).toList

end History

end Pathwise
