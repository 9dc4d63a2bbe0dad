import Mathlib.Data.List.Nodup
import Mathlib.Logic.Function.Basic
import Pathwise.History.Basic
import Pathwise.Proofs.History.Keys
import Pathwise.Proofs.Text.Delimited

/-!
# A history is a map from ids to reports

A history keeps two keys for each report, and finds the second one again from the report that it
replaces or takes out. This file says that nothing of that can be seen from outside.

* **Shelves** (`Shelf`) are the plain map: putting a report replaces the one with its id, deleting
  empties the place. `Shelf.attempt` says when a call fails, and why.
* **Keys** (`History.id_of_entryKey`, `History.reportKey_ne_entryKey`): different ids never share a
  key, and the keys of reports and of entries are apart.
* **Failures** (`History.attempt_of_error`): a call commits its changes last, so one that fails has
  made none.
* **Refinement** (`History.Refines`): the keys of a history are exactly the two of each report on
  the shelf. Each call keeps this up, or fails on both sides for the same reason
  (`History.Refines.attempt`), and so does every run of calls (`History.refines_run`).
* **Lists** (`History.list_eq`): a list begins like that of all entries, and ends at the limit.
-/

namespace Pathwise

namespace History

/-- A call that changes a history. -/
inductive Call where
  | put (report : Report)
  | delete (id : String)

/-- What a call does. -/
def Call.action : Call → Action Unit
  | .put r => History.put r
  | .delete id => History.delete id

/-- Whether a call succeeds, and the history after it. -/
def attempt (h : History) (c : Call) : Except HistoryError Unit × History :=
  c.action.run.run h

/-- The history after a call. -/
def after (h : History) (c : Call) : History :=
  (h.attempt c).2

/-- The history after some calls, from the empty one on. -/
def run (calls : List Call) : History :=
  calls.foldl after empty

end History

/-- Reports by their ids. -/
abbrev Shelf := String → Option Report

namespace Shelf

open History (Call)

/-- The shelf that a call leads to. Reports need an id and a text, and only a report that is there
can be taken out. -/
def attempt (s : Shelf) : Call → Except HistoryError Shelf
  | .put r =>
    if r.id = "" then .error .noId
    else
      match (Kept.report r).toText with
      | .error e => .error (.encode r.id e)
      | .ok _ => .ok (Function.update s r.id (some r))
  | .delete id =>
    match s id with
    | none => .error (.notFound id)
    | some _ => .ok (Function.update s id none)

/-- The shelf after a call. -/
def after (s : Shelf) (c : Call) : Shelf :=
  (s.attempt c).toOption.getD s

/-- The shelf after some calls, from the empty one on. -/
def run (calls : List Call) : Shelf :=
  calls.foldl after fun _ => none

end Shelf

namespace History

/-! ### Failures -/

section Action

variable {α β : Type} {x : Action α} {f : α → Action β}

/-- An action goes on with the result of its first step, and ends where that fails. -/
theorem run_bind (x : Action α) (f : α → Action β) (h : History) :
    (x >>= f).run.run h = match x.run.run h with
      | (.ok a, h) => (f a).run.run h
      | (.error e, h) => (.error e, h) := by
  show (ExceptT.bindCont f (x.run.run h).1).run (x.run.run h).2 = _
  rcases x.run.run h with ⟨_ | _, h⟩ <;> rfl

/-- An action that changes nothing. -/
def Action.Reads (x : Action α) : Prop :=
  ∀ h, (x.run.run h).2 = h

/-- An action that has changed nothing if it fails. -/
def Action.Clean (x : Action α) : Prop :=
  ∀ h e, (x.run.run h).1 = .error e → (x.run.run h).2 = h

/-- What changes nothing at all changes nothing if it fails. -/
theorem Action.Reads.clean (hx : x.Reads) : x.Clean :=
  fun h _ _ => hx h

/-- Steps that change nothing can come before one another. -/
theorem Action.Reads.bind (hx : x.Reads) (hf : ∀ a, (f a).Reads) : (x >>= f).Reads := by
  intro h
  have hx := hx h
  rw [run_bind]
  generalize x.run.run h = result at hx
  obtain ⟨_ | a, h'⟩ := result
  · exact hx
  · exact (hf a h').trans hx

/-- Steps that change nothing can come before one that is clean. -/
theorem Action.Reads.clean_bind (hx : x.Reads) (hf : ∀ a, (f a).Clean) : (x >>= f).Clean := by
  intro h e he
  have hx := hx h
  rw [run_bind] at he ⊢
  generalize x.run.run h = result at hx he ⊢
  obtain ⟨_ | a, h'⟩ := result
  · exact hx
  · exact (hf a h' e he).trans hx

/-- Reading the history returns it and leaves it. -/
theorem run_getThe (h : History) : (getThe History : Action History).run.run h = (.ok h, h) :=
  rfl

/-- Looking at the history changes nothing. -/
theorem reads_getThe : (getThe History : Action History).Reads :=
  fun _ => rfl

/-- Returning changes nothing. -/
theorem reads_pure (a : α) : (pure a : Action α).Reads :=
  fun _ => rfl

/-- Failing changes nothing. -/
theorem reads_throw (e : HistoryError) : (throw e : Action α).Reads :=
  fun _ => rfl

/-- Looking for a stale entry changes nothing. -/
theorem reads_staleChanges (id : String) : (staleChanges id).Reads := by
  unfold staleChanges
  refine reads_getThe.bind fun h => ?_
  split
  · exact reads_pure _
  · exact reads_pure _
  · exact reads_throw _

/-- Encoding a value changes nothing. -/
theorem reads_encode (k : Kept) (error : Document.EncodeError → HistoryError) :
    (encode k error).Reads := by
  unfold encode
  split
  · exact reads_pure _
  · exact reads_throw _

/-- Committing a batch does not fail. -/
theorem clean_commit (batch : List Change) : (commit batch).Clean := by
  intro h e he
  cases he

/-- What can fail in putting a report comes before its batch is committed. -/
theorem clean_put (r : Report) : (put r).Clean := by
  unfold put
  split
  · exact fun _ _ _ => rfl
  · refine (reads_staleChanges _).clean_bind fun _ => ?_
    refine (reads_encode _ _).clean_bind fun _ => ?_
    refine (reads_encode _ _).clean_bind fun _ => ?_
    exact clean_commit _

/-- What can fail in deleting a report comes before its batch is committed. -/
theorem clean_delete (id : String) : (delete id).Clean := by
  unfold delete
  refine reads_getThe.clean_bind fun h => ?_
  split
  · exact clean_commit _
  · exact (reads_throw _).clean

/-- A call that fails leaves every history as it was, be there in it what may. -/
theorem attempt_of_error {h : History} {c : Call} {e : HistoryError}
    (he : (h.attempt c).1 = .error e) : (h.attempt c).2 = h := by
  cases c with
  | put r => exact clean_put r h e he
  | delete id => exact clean_delete id h e he

end Action

end History

/-! ### Encoding -/

namespace Document

/-- Fields have a JSON form if each of them has one. -/
theorem exists_fieldsToJson_iff {fields : List (String × Document)} :
    (∃ js, fieldsToJson fields = .ok js) ↔ ∀ f ∈ fields, ∃ j, f.2.toJson = .ok j := by
  induction fields with
  | nil => simp [fieldsToJson]
  | cons f fields ih =>
      rw [List.forall_mem_cons, ← ih, fieldsToJson]
      cases f.2.toJson with
      | error e =>
          refine iff_of_false ?_ (by simp)
          rintro ⟨js, hjs⟩
          cases hjs
      | ok j =>
          cases fieldsToJson fields with
          | error e =>
              refine iff_of_false ?_ (by simp)
              rintro ⟨js, hjs⟩
              cases hjs
          | ok js => exact iff_of_true ⟨_, rfl⟩ ⟨⟨_, rfl⟩, ⟨_, rfl⟩⟩

/-- A record has a JSON form if each of its fields has one. -/
theorem exists_toJson_record_iff {fields : List (String × Document)} :
    (∃ j, (record fields).toJson = .ok j) ↔ ∀ f ∈ fields, ∃ j, f.2.toJson = .ok j := by
  rw [← exists_fieldsToJson_iff, toJson]
  cases fieldsToJson fields with
  | error e => simp [bind, Except.bind]
  | ok js => exact iff_of_true ⟨_, rfl⟩ ⟨_, rfl⟩

end Document

/-- The entry of a report can be encoded where the report can: all that may fail in it is the time,
which the report has too. -/
theorem Kept.exists_toText_entry {r : Report} {text : String}
    (h : (Kept.report r).toText = .ok text) : ∃ text', (Kept.entry r.entry).toText = .ok text' := by
  have hreport : ∃ j, r.toDocument.toJson = .ok j := by
    rw [toText] at h
    cases hj : r.toDocument.toJson with
    | error e =>
        rw [hj] at h
        cases h
    | ok j => exact ⟨j, rfl⟩
  have hstarted : ("started_at", Document.instant r.startedAt) ∈
      (r.leadingFields ++ [Document.field "started_at" (.instant r.startedAt),
        Document.field "duration_ns" (.duration r.duration)]).filterMap id :=
    List.mem_filterMap.mpr ⟨_, List.mem_append_right _ List.mem_cons_self, rfl⟩
  have htime : ∃ j, (Document.instant r.entry.startedAt).toJson = .ok j :=
    Document.exists_toJson_record_iff.mp hreport _ hstarted
  have hentry : ∃ j, r.entry.toDocument.toJson = .ok j := by
    refine Document.exists_toJson_record_iff.mpr fun f hf => ?_
    simp only [Document.field, Document.fieldUnless, List.mem_filterMap, List.mem_cons,
      List.not_mem_nil, or_false, id_eq, exists_eq_right, Option.some.injEq] at hf
    rcases hf with rfl | rfl | rfl | rfl | rfl | rfl | hf | rfl
    case inr.inr.inr.inr.inr.inr.inl =>
      split at hf
      · cases hf
      · cases hf
        exact ⟨_, rfl⟩
    case inr.inr.inr.inr.inr.inr.inr => exact htime
    all_goals exact ⟨_, rfl⟩
  obtain ⟨j, hj⟩ := hentry
  exact ⟨_, by rw [toText, hj]; rfl⟩

namespace History

/-! ### Keys -/

/-- Reports with different ids have different keys. -/
theorem reportKey_inj {i j : String} (h : reportKey i = reportKey j) : i = j := by
  unfold reportKey at h
  rw [Key.ofText_append, Key.ofText_append] at h
  exact Key.ofText_inj.mp (List.append_cancel_left h)

/-- A time that is written for a key has no colon in it. -/
theorem colon_notMem_padded (n : Nat) (z : Int) : ':' ∉ (Text.padded n z).toList := by
  have hdigits (m : Nat) : ':' ∉ (toString m).toList := by
    intro h
    exact absurd (Text.isDigit_of_mem_repr h) (by decide)
  have hfilled (w m : Nat) : ':' ∉ (Text.padLeft w '0' (toString m)).toList := by
    unfold Text.padLeft Text.repeated
    rw [String.toList_append, String.toList_ofList, List.mem_append, not_or]
    exact ⟨by simp [List.mem_replicate], hdigits m⟩
  unfold Text.padded
  split
  · rw [String.toList_append, List.mem_append, not_or]
    exact ⟨by decide, hfilled _ _⟩
  · exact hfilled _ _

/-- The id in the key of an entry begins after the second colon, which ends the time. -/
theorem id_of_entryKey {t u : Instant} {i j : String} (h : entryKey t i = entryKey u j) :
    i = j := by
  unfold entryKey at h
  have htexts := congrArg String.toList (Key.ofText_inj.mp h)
  simp only [String.toList_append, List.append_assoc] at htexts
  have hrest := List.append_cancel_left htexts
  have hids := Text.append_cons_inj (colon_notMem_padded _ _) (colon_notMem_padded _ _) hrest
  exact String.toList_inj.mp hids.2

/-- The keys of entries begin with their root. -/
theorem entryRoot_isPrefix_entryKey (t : Instant) (id : String) : entryRoot <+: entryKey t id := by
  unfold entryKey entryRoot
  rw [Key.ofText_append, Key.ofText_append, Key.ofText_append, List.append_assoc, List.append_assoc]
  exact List.prefix_append _ _

/-- The keys of reports do not begin with the root of entries. -/
theorem not_entryRoot_isPrefix_reportKey (id : String) : ¬ entryRoot <+: reportKey id := by
  have hreport : Key.ofText "report:" = [114, 101, 112, 111, 114, 116, 58] := by decide +kernel
  have htime : entryRoot = [116, 105, 109, 101, 58] := by decide +kernel
  unfold reportKey
  rw [Key.ofText_append, hreport, htime, List.cons_append, List.cons_prefix_cons]
  rintro ⟨h, -⟩
  exact absurd h (by decide)

/-- No report has the key of an entry. -/
theorem reportKey_ne_entryKey (i j : String) (t : Instant) : reportKey i ≠ entryKey t j := by
  intro h
  exact not_entryRoot_isPrefix_reportKey i (h ▸ entryRoot_isPrefix_entryKey t j)

/-! ### Refinement -/

/-- What a history keeps for a report with an id. -/
def Stores (id : String) (r : Report) (k : Key) (v : Kept) : Prop :=
  k = reportKey id ∧ v = .report r ∨ k = entryKey r.startedAt id ∧ v = .entry r.entry

/-- A key is kept for one id only. -/
theorem Stores.id_eq {i j : String} {r s : Report} {k : Key} {v w : Kept} (h : Stores i r k v)
    (h' : Stores j s k w) : i = j := by
  rcases h with ⟨rfl, -⟩ | ⟨rfl, -⟩
  · rcases h' with ⟨hk, -⟩ | ⟨hk, -⟩
    · exact reportKey_inj hk
    · exact absurd hk (reportKey_ne_entryKey _ _ _)
  · rcases h' with ⟨hk, -⟩ | ⟨hk, -⟩
    · exact absurd hk.symm (reportKey_ne_entryKey _ _ _)
    · exact id_of_entryKey hk

/-- Under the keys of one id nothing is kept for other ids. -/
theorem Stores.not_exists_other {id : String} {r : Report} {k : Key} {v w : Kept} {s : Shelf}
    (h : Stores id r k w) : ¬ ∃ j q, j ≠ id ∧ s j = some q ∧ Stores j q k v := by
  rintro ⟨j, q, hne, -, hstored⟩
  exact hne (hstored.id_eq h)

/-- Under the key of a report is the report. -/
theorem stores_reportKey_iff {id : String} {r : Report} {v : Kept} :
    Stores id r (reportKey id) v ↔ v = .report r := by
  simp [Stores, reportKey_ne_entryKey]

/-- Under the key of the entry of a report is the entry. -/
theorem stores_entryKey_iff {id : String} {r : Report} {v : Kept} :
    Stores id r (entryKey r.startedAt id) v ↔ v = .entry r.entry := by
  simp [Stores, (reportKey_ne_entryKey _ _ _).symm]

/-- What holds of a report on a shelf with one place changed holds of the report at that place, or
of one that was there. -/
theorem exists_update_iff {s : Shelf} {id : String} {o : Option Report}
    {P : String → Report → Prop} :
    (∃ j q, Function.update s id o j = some q ∧ P j q) ↔
      (∃ q, o = some q ∧ P id q) ∨ ∃ j q, j ≠ id ∧ s j = some q ∧ P j q := by
  constructor
  · rintro ⟨j, q, hj, hq⟩
    by_cases hid : j = id
    · subst hid
      rw [Function.update_self] at hj
      exact .inl ⟨q, hj, hq⟩
    · rw [Function.update_of_ne hid] at hj
      exact .inr ⟨j, q, hid, hj, hq⟩
  · rintro (⟨q, hj, hq⟩ | ⟨j, q, hid, hj, hq⟩)
    · exact ⟨id, q, by rwa [Function.update_self], hq⟩
    · exact ⟨j, q, by rwa [Function.update_of_ne hid], hq⟩

/-- On a shelf with one place changed, reports have the ids of their places if the report at that
place has. -/
theorem named_update {s : Shelf} (h : ∀ id r, s id = some r → r.id = id) {id : String}
    {o : Option Report} (ho : ∀ r, o = some r → r.id = id) :
    ∀ j q, Function.update s id o j = some q → q.id = j := by
  intro j q hq
  by_cases hj : j = id
  · subst hj
    rw [Function.update_self] at hq
    exact ho q hq
  · rw [Function.update_of_ne hj] at hq
    exact h j q hq

/-- The history keeps what the reports on the shelf ask for, and nothing else. -/
structure Refines (h : History) (s : Shelf) : Prop where
  ascending : h.values.Ascending
  named : ∀ id r, s id = some r → r.id = id
  contents : ∀ k v, h.values.get? k = some v ↔ ∃ id r, s id = some r ∧ Stores id r k v

/-- A new history is the empty map. -/
theorem refines_empty : Refines empty fun _ => none where
  ascending := KeyMap.ascending_empty
  named := by simp
  contents := by simp [empty]

variable {h : History} {s : Shelf}

/-- Under the key of an id is the report that the map has for the id. -/
theorem Refines.get?_reportKey (hr : Refines h s) (id : String) :
    h.values.get? (reportKey id) = (s id).map .report := by
  cases hs : s id with
  | some r => exact (hr.contents _ _).mpr ⟨id, r, hs, .inl ⟨rfl, rfl⟩⟩
  | none =>
      rw [Option.map_none, Option.eq_none_iff_forall_ne_some]
      intro v hv
      obtain ⟨j, r, hj, hstored⟩ := (hr.contents _ _).mp hv
      have hid : j = id := hstored.id_eq (.inl ⟨rfl, rfl⟩ : Stores id r (reportKey id) _)
      rw [hid, hs] at hj
      cases hj

/-- Getting a report is looking it up in the map. -/
theorem Refines.get_eq (hr : Refines h s) (id : String) :
    h.get id = match s id with
      | some r => .ok r
      | none => .error (.notFound id) := by
  unfold get
  rw [hr.get?_reportKey]
  cases s id <;> rfl

/-! ### Calls -/

/-- The values of a history without the entry of the report that has an id. -/
def valuesWithoutEntry (h : History) (s : Shelf) (id : String) : KeyMap Kept :=
  match s id with
  | some old => h.values.erase (entryKey old.startedAt id)
  | none => h.values

/-- The changes that drop the entry of the report that has an id. -/
def staleEntry (s : Shelf) (id : String) : List Change :=
  (s id).toList.map fun old => .delete (entryKey old.startedAt id)

/-- The changes that take an older entry away, applied to the values. -/
theorem foldl_staleEntry (h : History) (s : Shelf) (id : String) :
    (staleEntry s id).foldl Change.apply h.values = valuesWithoutEntry h s id := by
  unfold staleEntry valuesWithoutEntry
  cases s id <;> rfl

/-- Of a report on the shelf, the entry that is there is dropped. -/
theorem Refines.run_staleChanges (hr : Refines h s) (id : String) :
    (staleChanges id).run.run h = (.ok (staleEntry s id), h) := by
  unfold staleChanges staleEntry
  rw [run_bind, run_getThe]
  simp only [hr.get_eq]
  cases hs : s id with
  | some old =>
      have hid : old.id = id := hr.named id old hs
      simp only [hid]
      rfl
  | none => rfl

/-- Taking an entry away keeps the keys in order. -/
theorem Refines.ascending_valuesWithoutEntry (hr : Refines h s) (id : String) :
    (valuesWithoutEntry h s id).Ascending := by
  unfold valuesWithoutEntry
  cases s id with
  | some old => exact hr.ascending.erase _
  | none => exact hr.ascending

/-- Without its entry, at most the report itself is left of what is kept for an id. -/
theorem Refines.get?_valuesWithoutEntry (hr : Refines h s) {id : String} {k : Key}
    (hk : k ≠ reportKey id) (v : Kept) :
    (valuesWithoutEntry h s id).get? k = some v ↔
      ∃ j r, j ≠ id ∧ s j = some r ∧ Stores j r k v := by
  constructor
  · intro hv
    have hfound : h.values.get? k = some v ∧
        ∀ old, s id = some old → k ≠ entryKey old.startedAt id := by
      unfold valuesWithoutEntry at hv
      cases hs : s id with
      | none => exact ⟨by rwa [hs] at hv, by simp⟩
      | some old =>
          simp only [hs, KeyMap.get?_erase] at hv
          by_cases hkey : k = entryKey old.startedAt id
          · rw [if_pos hkey] at hv
            cases hv
          · rw [if_neg hkey] at hv
            exact ⟨hv, by rintro _ ⟨⟩; exact hkey⟩
    obtain ⟨j, r, hj, hstored⟩ := (hr.contents k v).mp hfound.1
    refine ⟨j, r, ?_, hj, hstored⟩
    rintro rfl
    rcases hstored with ⟨hreport, -⟩ | ⟨hentry, -⟩
    · exact hk hreport
    · exact hfound.2 r hj hentry
  · rintro ⟨j, r, hne, hj, hstored⟩
    have hv := (hr.contents k v).mpr ⟨j, r, hj, hstored⟩
    unfold valuesWithoutEntry
    cases hs : s id with
    | none => exact hv
    | some old =>
        have hkey : k ≠ entryKey old.startedAt id := by
          intro hkey
          exact hne (hstored.id_eq (.inr ⟨hkey, rfl⟩ : Stores id old k _))
        simp only [KeyMap.get?_erase, if_neg hkey, hv]

/-- The error of the entry does not come up: what it could tell, the report told before. -/
theorem Refines.put_eq (hr : Refines h s) (r : Report) :
    (History.put r).run.run h =
      if r.id = "" then (.error .noId, h)
      else
        match (Kept.report r).toText with
        | .error e => (.error (.encode r.id e), h)
        | .ok _ =>
          (.ok (), ⟨((valuesWithoutEntry h s r.id).insert (reportKey r.id) (.report r)).insert
            (entryKey r.startedAt r.id) (.entry r.entry)⟩) := by
  unfold History.put
  by_cases hid : r.id = ""
  · rw [if_pos hid, if_pos hid]
    rfl
  · rw [if_neg hid, if_neg hid, run_bind, hr.run_staleChanges]
    unfold encode
    cases hreport : (Kept.report r).toText with
    | error e => rfl
    | ok text =>
        obtain ⟨text', hentry⟩ := Kept.exists_toText_entry hreport
        rw [hentry, ← foldl_staleEntry]
        show (Except.ok (), (⟨List.foldl Change.apply h.values (_ ++ _ ++ _)⟩ : History)) = _
        rw [List.foldl_append, List.foldl_append]
        rfl

/-- Putting a report is an update of the map: its older entry goes, and both new values are
found. -/
theorem Refines.put (hr : Refines h s) (r : Report) :
    Refines ⟨((valuesWithoutEntry h s r.id).insert (reportKey r.id) (.report r)).insert
      (entryKey r.startedAt r.id) (.entry r.entry)⟩ (Function.update s r.id (some r)) where
  ascending := ((hr.ascending_valuesWithoutEntry r.id).insert _ _).insert _ _
  named := named_update hr.named fun q hq => congrArg Report.id (Option.some.inj hq).symm
  contents := by
    intro k v
    rw [KeyMap.get?_insert, KeyMap.get?_insert, exists_update_iff]
    simp only [Option.some.injEq, exists_eq_left']
    by_cases hentry : k = entryKey r.startedAt r.id
    · have hstored : Stores r.id r k (.entry r.entry) := .inr ⟨hentry, rfl⟩
      rw [if_pos hentry, or_iff_left hstored.not_exists_other, hentry, stores_entryKey_iff,
        Option.some.injEq, eq_comm]
    · by_cases hreport : k = reportKey r.id
      · have hstored : Stores r.id r k (.report r) := .inl ⟨hreport, rfl⟩
        rw [if_neg hentry, if_pos hreport, or_iff_left hstored.not_exists_other, hreport,
          stores_reportKey_iff, Option.some.injEq, eq_comm]
      · have hnone : ¬ Stores r.id r k v := by
          rintro (⟨hk, -⟩ | ⟨hk, -⟩)
          · exact hreport hk
          · exact hentry hk
        rw [if_neg hentry, if_neg hreport, hr.get?_valuesWithoutEntry hreport, or_iff_right hnone]

/-- Deleting fails where the map has nothing, and else erases both values. -/
theorem Refines.delete_eq (hr : Refines h s) (id : String) :
    (History.delete id).run.run h = match s id with
      | none => (.error (.notFound id), h)
      | some r => (.ok (), ⟨(h.values.erase (reportKey id)).erase (entryKey r.startedAt id)⟩) := by
  unfold History.delete
  rw [run_bind, run_getThe]
  simp only [hr.get_eq]
  cases s id <;> rfl

/-- Deleting a report is an update of the map. -/
theorem Refines.delete (hr : Refines h s) {id : String} {r : Report} (hs : s id = some r) :
    Refines ⟨(h.values.erase (reportKey id)).erase (entryKey r.startedAt id)⟩
      (Function.update s id none) where
  ascending := (hr.ascending.erase _).erase _
  named := named_update hr.named fun q hq => by cases hq
  contents := by
    intro k v
    rw [exists_update_iff]
    simp only [reduceCtorEq, false_and, exists_false, false_or]
    by_cases hreport : k = reportKey id
    · have hstored : Stores id r k (.report r) := .inl ⟨hreport, rfl⟩
      rw [KeyMap.get?_erase, KeyMap.get?_erase, if_pos hreport, ite_self]
      exact iff_of_false (by simp) hstored.not_exists_other
    · -- at all other keys nothing has changed but that the entry is gone
      have hrest : ((h.values.erase (reportKey id)).erase (entryKey r.startedAt id)).get? k =
          (valuesWithoutEntry h s id).get? k := by
        unfold valuesWithoutEntry
        simp only [hs, KeyMap.get?_erase, if_neg hreport]
      rw [hrest, hr.get?_valuesWithoutEntry hreport]

/-- A call does the same to a history and to the shelf that it refines, or fails on both. -/
theorem Refines.attempt (hr : Refines h s) (c : Call) :
    (∃ h' s', h.attempt c = (.ok (), h') ∧ s.attempt c = .ok s' ∧ Refines h' s') ∨
      ∃ e, h.attempt c = (.error e, h) ∧ s.attempt c = .error e := by
  cases c with
  | put r =>
      simp only [History.attempt, Call.action, Shelf.attempt, hr.put_eq]
      by_cases hid : r.id = ""
      · rw [if_pos hid, if_pos hid]
        exact .inr ⟨_, rfl, rfl⟩
      · rw [if_neg hid, if_neg hid]
        cases (Kept.report r).toText with
        | error e => exact .inr ⟨_, rfl, rfl⟩
        | ok text => exact .inl ⟨_, _, rfl, rfl, hr.put r⟩
  | delete id =>
      simp only [History.attempt, Call.action, Shelf.attempt, hr.delete_eq]
      cases hs : s id with
      | none => exact .inr ⟨_, rfl, rfl⟩
      | some r => exact .inl ⟨_, _, rfl, rfl, hr.delete hs⟩

/-- A call keeps up the refinement. -/
theorem Refines.after (hr : Refines h s) (c : Call) : Refines (h.after c) (s.after c) := by
  unfold History.after Shelf.after
  rcases hr.attempt c with ⟨h', s', hh, hs, hr'⟩ | ⟨e, hh, hs⟩
  · rw [hh, hs]
    exact hr'
  · rw [hh, hs]
    exact hr

/-- Calls one after the other keep a history in step with its map. -/
theorem Refines.foldl (hr : Refines h s) (calls : List Call) :
    Refines (calls.foldl History.after h) (calls.foldl Shelf.after s) := by
  induction calls generalizing h s with
  | nil => exact hr
  | cons c calls ih => exact ih (hr.after c)

/-- After any calls a history is in step with its map. -/
theorem refines_run (calls : List Call) : Refines (run calls) (Shelf.run calls) :=
  refines_empty.foldl calls

/-! ### Lists -/

/-- All entries that can be read, the newest first. -/
def entries (h : History) : List HistoryEntry :=
  (h.values.beginningWith entryRoot).reverse.filterMap fun e => e.2.listing?

/-- As long as there is room for more, the loop adds the first readable entries that there is room
for. -/
theorem toList_collect {limit : Int} {found : Array HistoryEntry}
    (hroom : limit ≤ 0 ∨ found.size < limit) (kept : List (Key × Kept)) :
    (collect limit found kept).toList = found.toList ++
      let es := kept.filterMap fun e => e.2.listing?
      if limit ≤ 0 then es else es.take (limit - found.size).toNat := by
  induction kept generalizing found with
  | nil => simp [collect]
  | cons e kept ih =>
      obtain ⟨k, v⟩ := e
      rw [collect]
      cases hv : v.listing? with
      | none =>
          simp only [List.filterMap_cons, hv]
          exact ih hroom
      | some e =>
          simp only [List.filterMap_cons, hv]
          by_cases hfull : 0 < limit ∧ limit ≤ (found.push e).size
          · have hlast : (limit - found.size).toNat = 1 := by
              rw [Array.size_push] at hfull
              omega
            rw [if_pos hfull, if_neg (Int.not_le.mpr hfull.1), hlast, Array.toList_push]
            rfl
          · have hroom' : limit ≤ 0 ∨ (found.push e).size < limit := by omega
            simp only [if_neg hfull, ih hroom', Array.toList_push, List.append_assoc]
            by_cases hlimit : limit ≤ 0
            · simp only [if_pos hlimit, List.singleton_append]
            · have hnext : (limit - found.size).toNat =
                  (limit - (found.push e).size).toNat + 1 := by
                rw [Array.size_push] at hroom' ⊢
                omega
              simp only [if_neg hlimit, hnext, List.take_succ_cons, List.singleton_append]

/-- A list begins like that of all entries, and ends at the limit if it is positive. -/
theorem list_eq (h : History) (limit : Int) :
    h.list limit = if limit ≤ 0 then h.entries else h.entries.take limit.toNat := by
  have hroom : limit ≤ 0 ∨ ((#[] : Array HistoryEntry).size : Int) < limit := by
    simp only [Array.size_empty]
    omega
  unfold list
  rw [toList_collect hroom]
  simp [entries]

/-- A limit of zero means all entries. -/
theorem list_zero (h : History) : h.list 0 = h.entries :=
  (h.list_eq 0).trans (if_pos (Int.le_refl 0))

/-- The entries are the listings of the values under the root of entries. -/
theorem mem_entries {h : History} {e : HistoryEntry} :
    e ∈ h.entries ↔ ∃ k v, (k, v) ∈ h.values.entries ∧ entryRoot <+: k ∧ v.listing? = some e := by
  unfold entries KeyMap.beginningWith
  simp only [List.mem_filterMap, List.mem_reverse, List.mem_filter, Key.inRange_beyond_iff,
    Prod.exists, and_assoc]

/-- Under a key of an entry stands the entry of a report on the shelf. -/
theorem Refines.eq_entry (hr : Refines h s) {k : Key} {v : Kept} (hmem : (k, v) ∈ h.values.entries)
    (hk : entryRoot <+: k) :
    ∃ id r, s id = some r ∧ k = entryKey r.startedAt id ∧ v = .entry r.entry := by
  obtain ⟨id, r, hs, ⟨rfl, -⟩ | hentry⟩ := (hr.contents k v).mp (hr.ascending.mem_iff.mp hmem)
  · exact absurd hk (not_entryRoot_isPrefix_reportKey id)
  · exact ⟨id, r, hs, hentry⟩

/-- There is an entry for each report of the map, and no other. -/
theorem Refines.mem_entries_iff (hr : Refines h s) {e : HistoryEntry} :
    e ∈ h.entries ↔ ∃ id r, s id = some r ∧ e = r.entry := by
  rw [mem_entries]
  constructor
  · rintro ⟨k, v, hmem, hk, hv⟩
    obtain ⟨id, r, hs, -, rfl⟩ := hr.eq_entry hmem hk
    cases hv
    exact ⟨id, r, hs, rfl⟩
  · rintro ⟨id, r, hs, rfl⟩
    refine ⟨entryKey r.startedAt id, .entry r.entry, ?_, entryRoot_isPrefix_entryKey _ _, rfl⟩
    exact hr.ascending.mem_iff.mpr ((hr.contents _ _).mpr ⟨id, r, hs, .inr ⟨rfl, rfl⟩⟩)

/-- The entries are listed from the last key to the first. -/
theorem Refines.pairwise_entries (hr : Refines h s) {R : HistoryEntry → HistoryEntry → Prop}
    (hR : ∀ i q j r, s i = some q → s j = some r →
      (entryKey q.startedAt i).before (entryKey r.startedAt j) = true → R r.entry q.entry) :
    h.entries.Pairwise R := by
  unfold entries KeyMap.beginningWith
  rw [List.pairwise_filterMap, List.pairwise_reverse]
  have hkeys := hr.ascending.sublist (List.filter_sublist (p := fun e : Key × Kept =>
    Key.inRange entryRoot (Key.beyond? entryRoot) e.1))
  refine hkeys.imp_of_mem ?_
  rintro ⟨k, v⟩ ⟨l, w⟩ hv hw hkl e he d hd
  obtain ⟨hv, hk⟩ := List.mem_filter.mp hv
  obtain ⟨hw, hl⟩ := List.mem_filter.mp hw
  obtain ⟨i, q, hi, rfl, rfl⟩ := hr.eq_entry hv ((Key.inRange_beyond_iff _ _).mp hk)
  obtain ⟨j, r, hj, rfl, rfl⟩ := hr.eq_entry hw ((Key.inRange_beyond_iff _ _).mp hl)
  cases he
  cases hd
  exact hR i q j r hi hj hkl

/-- No id is listed twice: its entries would have one key, and keys ascend. -/
theorem Refines.nodup_ids (hr : Refines h s) : (h.entries.map (·.id)).Nodup := by
  rw [List.Nodup, List.pairwise_map]
  refine hr.pairwise_entries ?_
  intro i q j r hi hj hkl heq
  have hij : i = j := by
    rw [← hr.named i q hi, ← hr.named j r hj]
    exact heq.symm
  subst hij
  rw [hi] at hj
  cases hj
  rw [Key.before_irrefl] at hkl
  cases hkl

/-- The entries with an id are none, or the one of the report on the shelf. -/
theorem Refines.filter_entries (hr : Refines h s) (id : String) :
    h.entries.filter (·.id == id) = ((s id).map Report.entry).toList := by
  have hmem (e : HistoryEntry) :
      e ∈ h.entries.filter (·.id == id) ↔ ∃ r, s id = some r ∧ e = r.entry := by
    rw [List.mem_filter, hr.mem_entries_iff, beq_iff_eq]
    constructor
    · rintro ⟨⟨j, r, hj, rfl⟩, rfl⟩
      have hid : r.entry.id = j := hr.named j r hj
      exact ⟨r, by rw [hid]; exact hj, rfl⟩
    · rintro ⟨r, hs, rfl⟩
      exact ⟨⟨id, r, hs, rfl⟩, hr.named id r hs⟩
  have hnodup : (h.entries.filter (·.id == id)).Nodup :=
    (List.Nodup.of_map _ hr.nodup_ids).filter _
  have hlist : ((s id).map Report.entry).toList.Nodup := by
    cases s id <;> simp
  have hperm := (List.perm_ext_iff_of_nodup hnodup hlist).mpr fun e => by
    rw [hmem]
    cases s id <;> simp
  cases hs : s id with
  | none =>
      rw [hs] at hperm
      exact hperm.eq_nil
  | some r =>
      rw [hs] at hperm
      exact List.perm_singleton.mp hperm

/-- **A history is a map from ids to reports.** After any calls, each report that was put last under
its id and not deleted since is found, and nothing else is; all entries are listed, one for each
such report; each call fails exactly when it fails on the map, for the same reason, and then
everything that can be found or listed stays as it was. -/
theorem run_refines_shelf (calls : List Call) :
    (∀ id, (run calls).get id = match Shelf.run calls id with
      | some r => .ok r
      | none => .error (.notFound id)) ∧
    (∀ id, ((run calls).list 0).filter (·.id == id) =
      ((Shelf.run calls id).map Report.entry).toList) ∧
    ∀ c, ((run calls).attempt c).1 = ((Shelf.run calls).attempt c).map (fun _ => ()) ∧
      ∀ e, ((run calls).attempt c).1 = .error e →
        (∀ id, (run (calls ++ [c])).get id = (run calls).get id) ∧
        ∀ limit, (run (calls ++ [c])).list limit = (run calls).list limit := by
  have hr := refines_run calls
  refine ⟨hr.get_eq, ?_, ?_⟩
  · intro id
    rw [list_zero]
    exact hr.filter_entries id
  · intro c
    constructor
    · rcases hr.attempt c with ⟨h', s', hh, hs, -⟩ | ⟨e, hh, hs⟩
      · rw [hh, hs]
        rfl
      · rw [hh, hs]
        rfl
    · intro e he
      have hsame : run (calls ++ [c]) = run calls := by
        unfold run
        rw [List.foldl_append]
        exact attempt_of_error he
      rw [hsame]
      exact ⟨fun _ => rfl, fun _ => rfl⟩

end History

end Pathwise
