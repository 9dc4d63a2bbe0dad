import Pathwise.Document
import Pathwise.Json.Decode
import Pathwise.Report.Basic

/-!
# Reports as documents, and from JSON

Empty names, counts and lists that carry no information are left out of documents. Decoding takes
what is left out as empty.
-/

namespace Pathwise

open Document (field fieldUnless ofFields)
open Json (Decoder)

/-! ### Layers -/

/-- The result in a layer as a document. -/
def LayerResult.toDocument (r : LayerResult) : Document :=
  ofFields [field "layer" (.text r.layer.name), field "verdict" (.text r.verdict.name),
    field "score" (.float r.score), field "detail" (.text r.detail)]

/-- The result in a layer about which nothing is known. -/
def LayerResult.zero : LayerResult :=
  ⟨.controlFlow, .unknown, 0, ""⟩

/-- Decodes the result in a layer. -/
def LayerResult.decoder : Decoder LayerResult :=
  .record [
    .of "layer" (.named Layer.ofName) (·.layer) ({ · with layer := · }),
    .of "verdict" (.named Verdict.ofName) (·.verdict) ({ · with verdict := · }),
    .of "score" .float (·.score) ({ · with score := · }),
    .of "detail" .string (·.detail) ({ · with detail := · })]

/-- Decodes results for the layers in their order. What is missing at the end is unknown, and what
is too much is passed over. -/
def Layered.resultsDecoder : Decoder (Layered LayerResult) := .each fun
  | .null, old => some old
  | .array js, old => do
    let at? (i : Nat) (r : LayerResult) : Option LayerResult :=
      match js[i]? with
      | some j => LayerResult.decoder.decode? j r
      | none => some .zero
    return ⟨← at? 0 old.controlFlow, ← at? 1 old.memory, ← at? 2 old.transform⟩
  | _, _ => none

/-! ### Pairs -/

/-- The verdict on a pair as a document. -/
def PairVerdict.toDocument (v : PairVerdict) : Document :=
  ofFields [field "verdict" (.text v.verdict.name), field "confidence" (.float v.confidence),
    field "layers" (.list (v.layers.toList.map LayerResult.toDocument)),
    fieldUnless (v.oracle == "") "oracle" (.text v.oracle),
    fieldUnless (!v.timedOut) "timed_out" (.bool v.timedOut),
    fieldUnless v.notes.isEmpty "notes" (.list (v.notes.map .text))]

/-- The verdict on a pair about which nothing is known. -/
def PairVerdict.zero : PairVerdict :=
  ⟨.unknown, 0, ⟨.zero, .zero, .zero⟩, "", false, []⟩

/-- Decodes the verdict on a pair. -/
def PairVerdict.decoder : Decoder PairVerdict :=
  .record [
    .of "verdict" (.named Verdict.ofName) (·.verdict) ({ · with verdict := · }),
    .of "confidence" .float (·.confidence) ({ · with confidence := · }),
    .of "layers" Layered.resultsDecoder (·.layers) ({ · with layers := · }),
    .of "oracle" .string (·.oracle) ({ · with oracle := · }),
    .of "timed_out" .bool (·.timedOut) ({ · with timedOut := · }),
    .of "notes" (.plainList "" .string) (·.notes) ({ · with notes := · })]

/-- The reference to a path as a document. -/
def PathRef.toDocument (r : PathRef) : Document :=
  ofFields [field "index" (.int r.index), field "name" (.text r.name),
    field "fingerprint" (.text r.fingerprint),
    fieldUnless (r.output == "") "output" (.text r.output)]

/-- Decodes the reference to a path. -/
def PathRef.decoder : Decoder PathRef :=
  .record [
    .of "index" .int (·.index) ({ · with index := · }),
    .of "name" .string (·.name) ({ · with name := · }),
    .of "fingerprint" .string (·.fingerprint) ({ · with fingerprint := · }),
    .of "output" .string (·.output) ({ · with output := · })]

/-- The reference to a path about which nothing is known. -/
def PathRef.zero : PathRef :=
  ⟨0, "", "", ""⟩

/-- A field for the reference to a path, if there is one. -/
def PathRef.fieldOf (name : String) (r : Option PathRef) : Option (String × Document) :=
  r.map fun r => (name, r.toDocument)

/-- A row as a document. -/
def PairResult.toDocument (r : PairResult) : Document :=
  ofFields [PathRef.fieldOf "a" r.a, PathRef.fieldOf "b" r.b,
    fieldUnless (!r.unmatched) "unmatched" (.bool r.unmatched),
    field "result" r.result.toDocument]

/-- A row about which nothing is known. -/
def PairResult.zero : PairResult :=
  ⟨none, none, false, .zero⟩

/-- Decodes a row. -/
def PairResult.decoder : Decoder PairResult :=
  .record [
    .of "a" (.optional .zero PathRef.decoder) (·.a) ({ · with a := · }),
    .of "b" (.optional .zero PathRef.decoder) (·.b) ({ · with b := · }),
    .of "unmatched" .bool (·.unmatched) ({ · with unmatched := · }),
    .of "result" PairVerdict.decoder (·.result) ({ · with result := · })]

/-! ### Reports -/

/-- A summary as a document. -/
def Summary.toDocument (s : Summary) : Document :=
  ofFields [field "verdict" (.text s.verdict.name), field "pairs" (.int s.pairs),
    field "equivalent_pairs" (.int s.equivalentPairs), field "partial_pairs" (.int s.partialPairs),
    field "not_equivalent_pairs" (.int s.notEquivalentPairs),
    field "unmatched_a" (.int s.unmatchedA), field "unmatched_b" (.int s.unmatchedB),
    field "unmatched_count" (.int s.unmatchedCount),
    field "mean_confidence" (.float s.meanConfidence),
    fieldUnless (!s.incomplete) "incomplete" (.bool s.incomplete)]

/-- The summary of nothing. -/
def Summary.zero : Summary :=
  ⟨.partiallyEquivalent, 0, 0, 0, 0, 0, 0, 0, 0, false⟩

/-- Decodes a summary. -/
def Summary.decoder : Decoder Summary :=
  .record [
    .of "verdict" (.named ProgramVerdict.ofName) (·.verdict) ({ · with verdict := · }),
    .of "pairs" .int (·.pairs) ({ · with pairs := · }),
    .of "equivalent_pairs" .int (·.equivalentPairs) ({ · with equivalentPairs := · }),
    .of "partial_pairs" .int (·.partialPairs) ({ · with partialPairs := · }),
    .of "not_equivalent_pairs" .int (·.notEquivalentPairs) ({ · with notEquivalentPairs := · }),
    .of "unmatched_a" .int (·.unmatchedA) ({ · with unmatchedA := · }),
    .of "unmatched_b" .int (·.unmatchedB) ({ · with unmatchedB := · }),
    .of "unmatched_count" .int (·.unmatchedCount) ({ · with unmatchedCount := · }),
    .of "mean_confidence" .float (·.meanConfidence) ({ · with meanConfidence := · }),
    .of "incomplete" .bool (·.incomplete) ({ · with incomplete := · })]

/-- A file error as a document. -/
def FileError.toDocument (e : FileError) : Document :=
  ofFields [field "side" (.text e.side), field "file" (.text e.file),
    fieldUnless (e.line == 0) "line" (.int e.line), field "message" (.text e.message)]

/-- Decodes a file error. -/
def FileError.decoder : Decoder FileError :=
  .record [
    .of "side" .string (·.side) ({ · with side := · }),
    .of "file" .string (·.file) ({ · with file := · }),
    .of "line" .int (·.line) ({ · with line := · }),
    .of "message" .string (·.message) ({ · with message := · })]

/-- Decodes an instant. -/
def Instant.decoder : Decoder Instant :=
  .spelled Instant.parse?

/-- Decodes a duration, a number of nanoseconds. -/
def Duration.decoder : Decoder Duration :=
  fun js d => (Decoder.int js d.nanoseconds).map Duration.mk

namespace Report

/-- The fields of a report before its times. -/
def leadingFields (r : Report) : List (Option (String × Document)) :=
  [field "id" (.text r.id), field "program_a" (.text r.programA),
    field "program_b" (.text r.programB), field "paths_a" (.int r.pathsA),
    field "paths_b" (.int r.pathsB), field "summary" r.summary.toDocument,
    field "pairs" (.optionalList PairResult.toDocument r.rows),
    fieldUnless r.fileErrors.isEmpty "parse_errors"
      (.list (r.fileErrors.map FileError.toDocument)),
    field "address_policy" (.text r.addressPolicy), field "oracle" (.text r.oracle)]

/-- A report as a document. -/
def toDocument (r : Report) : Document :=
  ofFields (r.leadingFields ++
    [field "started_at" (.instant r.startedAt), field "duration_ns" (.duration r.duration)])

/-- The report of nothing. -/
def zero : Report where
  id := ""
  programA := ""
  programB := ""
  pathsA := 0
  pathsB := 0
  summary := .zero
  rows := none
  fileErrors := []
  addressPolicy := ""
  oracle := ""
  startedAt := .zero
  duration := ⟨0⟩

/-- Decodes a report. -/
def decoder : Decoder Report :=
  .record [
    .of "id" .string (·.id) ({ · with id := · }),
    .of "program_a" .string (·.programA) ({ · with programA := · }),
    .of "program_b" .string (·.programB) ({ · with programB := · }),
    .of "paths_a" .int (·.pathsA) ({ · with pathsA := · }),
    .of "paths_b" .int (·.pathsB) ({ · with pathsB := · }),
    .of "summary" Summary.decoder (·.summary) ({ · with summary := · }),
    .of "pairs" (.list .zero PairResult.decoder) (·.rows) ({ · with rows := · }),
    .of "parse_errors" (.plainList ⟨"", "", 0, ""⟩ FileError.decoder) (·.fileErrors)
      ({ · with fileErrors := · }),
    .of "address_policy" .string (·.addressPolicy) ({ · with addressPolicy := · }),
    .of "oracle" .string (·.oracle) ({ · with oracle := · }),
    .of "started_at" Instant.decoder (·.startedAt) ({ · with startedAt := · }),
    .of "duration_ns" Duration.decoder (·.duration) ({ · with duration := · })]

/-- The report that a JSON value denotes. -/
def ofJson? (j : Json) : Option Report :=
  decoder.decode? j .zero

end Report

end Pathwise
