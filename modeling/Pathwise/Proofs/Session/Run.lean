import Mathlib.Data.List.Induction
import Pathwise.Session.Basic

/-!
# Runs of a session

A session answers calls, one after the other, and each answer may be a verdict that an earlier call
left in the cache. This file says what one call does, and from that where the answers of a run come
from, with any bounded map for a cache.

* **Calls** (`Session.Call`): a pair of paths, the circumstances, and what the oracle says if it is
  asked. Since every call brings its own answer, and its own end of the wait for it, a run covers
  oracles that change their mind, fail at times or run out of time.
* **Steps** (`Session.compare_of_misses`, `Session.compare_of_not_misses`): a call is judged anew,
  or it is answered from the cache.
* **Origins** (`Session.exists_origin`): whatever is answered was judged by a call of the run up to
  now with the same fingerprints, which found nothing in the cache.
-/

namespace Pathwise

/-- The settings under which the oracle, if there is one, gives the given answer. -/
def Settings.answering (s : Settings) (answer : Oracle.Answer) : Settings :=
  { s with oracle := s.oracle.map fun o => .constant o.name answer }

namespace Session

variable {M : VerdictMap}

/-! ### One call -/

/-- What a session remembers. -/
def entries (st : Session M) : List ((Keccak.Digest × Keccak.Digest) × PairVerdict) :=
  M.entries st.cache

/-- Nothing is remembered for two fingerprints. -/
def Misses (s : Settings) (st : Session M) (key : Keccak.Digest × Keccak.Digest) : Prop :=
  s.cacheSize = none ∨ (M.get st.cache key).1 = none

@[simp] theorem cache_count (c : Counter) (st : Session M) : (st.count c).cache = st.cache := rfl

@[simp] theorem oracleCalls_count (c : Counter) (st : Session M) :
    (st.count c).oracleCalls = st.oracleCalls := rfl

@[simp] theorem cache_observe (v : PairVerdict) (st : Session M) :
    (st.observe v).cache = st.cache := rfl

@[simp] theorem oracleCalls_observe (v : PairVerdict) (st : Session M) :
    (st.observe v).oracleCalls = st.oracleCalls := rfl

@[simp] theorem entries_count (c : Counter) (st : Session M) :
    (st.count c).entries = st.entries := rfl

@[simp] theorem entries_observe (v : PairVerdict) (st : Session M) :
    (st.observe v).entries = st.entries := rfl

@[simp] theorem cache_countCall (call : Option (String × Outcome)) (st : Session M) :
    (st.countCall call).cache = st.cache := by
  cases call <;> rfl

@[simp] theorem entries_countCall (call : Option (String × Outcome)) (st : Session M) :
    (st.countCall call).entries = st.entries := by
  rw [entries, cache_countCall, entries]

/-- A call of an oracle is counted, if there was one. -/
theorem oracleCalls_countCall (call : Option (String × Outcome)) (st : Session M) :
    (st.countCall call).oracleCalls = st.oracleCalls + if call.isSome then 1 else 0 := by
  cases call <;> rfl

@[simp] theorem oracleCalls_remember (s : Settings) (a b : Profile) (v : PairVerdict)
    (st : Session M) : (st.remember s a b v).oracleCalls = st.oracleCalls := by
  unfold remember
  split <;> rfl

variable {s : Settings} {a b : Profile} {st : Session M}

/-- Remembering a verdict adds no entry but its own. -/
theorem entries_remember_subset {v : PairVerdict} :
    (st.remember s a b v).entries ⊆ ((a.fingerprint, b.fingerprint), v) :: st.entries := by
  unfold remember
  split
  · exact M.entries_add _ _ _
  · exact List.subset_cons_self _ _

/-- A call that is judged anew. The cache can only gain the verdict, and only if it is final. -/
theorem compareAnew_spec (s : Settings) (turn : Turn) (a b : Profile) (st : Session M) :
    let found := judge s turn a b
    (compareAnew s turn a b st).1 = found.verdict ∧
      (compareAnew s turn a b st).2.oracleCalls
        = st.oracleCalls + (if found.outcome.isSome then 1 else 0) ∧
      ∀ e ∈ (compareAnew s turn a b st).2.entries,
        e ∈ st.entries ∨
          e = ((a.fingerprint, b.fingerprint), found.verdict) ∧ found.isFinal = true := by
  intro found
  refine ⟨rfl, ?_, ?_⟩
  · simp only [compareAnew, oracleCalls_observe]
    split
    · rw [oracleCalls_remember, oracleCalls_countCall]
    · rw [oracleCalls_countCall]
  · intro e he
    simp only [compareAnew, entries_observe] at he
    split at he
    · rename_i hfinal
      rcases List.mem_cons.mp (entries_remember_subset he) with rfl | he
      · exact .inr ⟨rfl, hfinal⟩
      · exact .inl (by simpa using he)
    · exact .inl (by simpa using he)

/-- A call for which nothing is remembered is judged anew. -/
theorem compare_of_misses (turn : Turn) (hmiss : Misses s st (a.fingerprint, b.fingerprint)) :
    let found := judge s turn a b
    (compare s turn a b st).1 = found.verdict ∧
      (compare s turn a b st).2.oracleCalls
        = st.oracleCalls + (if found.outcome.isSome then 1 else 0) ∧
      ∀ e ∈ (compare s turn a b st).2.entries,
        e ∈ st.entries ∨
          e = ((a.fingerprint, b.fingerprint), found.verdict) ∧ found.isFinal = true := by
  cases hsize : s.cacheSize with
  | none =>
      have hanew : compare s turn a b st = compareAnew s turn a b st := by simp [compare, hsize]
      rw [hanew]
      exact compareAnew_spec s turn a b st
  | some n =>
      have hfind : (M.get st.cache (a.fingerprint, b.fingerprint)).1 = none := by
        simpa [Misses, hsize] using hmiss
      let st' : Session M := { st with cache := (M.get st.cache (a.fingerprint, b.fingerprint)).2 }
      have hanew : compare s turn a b st = compareAnew s turn a b (st'.count .cacheMiss) := by
        simp [compare, hsize, hfind, st']
      obtain ⟨hverdict, hcalls, hentries⟩ := compareAnew_spec s turn a b (st'.count .cacheMiss)
      rw [hanew]
      refine ⟨hverdict, hcalls, fun e he => (hentries e he).imp_left fun he => ?_⟩
      exact M.entries_get _ _ he

/-- A call for which a verdict is remembered is answered with it. The oracle is not asked, and there
are no new entries. -/
theorem compare_of_not_misses (turn : Turn)
    (hhit : ¬ Misses s st (a.fingerprint, b.fingerprint)) :
    (M.get st.cache (a.fingerprint, b.fingerprint)).1 = some (compare s turn a b st).1 ∧
      (compare s turn a b st).2.oracleCalls = st.oracleCalls ∧
      (compare s turn a b st).2.entries ⊆ st.entries := by
  obtain ⟨hsize, hfind⟩ := not_or.mp hhit
  obtain ⟨v, hv⟩ := Option.ne_none_iff_exists'.mp hfind
  have hcompare : compare s turn a b st
      = (v, ({ st with cache := (M.get st.cache (a.fingerprint, b.fingerprint)).2 }.count
          .cacheHit).observe v) := by
    simp [compare, hsize, hv]
  rw [hcompare]
  exact ⟨hv, rfl, M.entries_get _ _⟩

/-! ### Runs -/

/-- A call: which paths are compared in which circumstances, and what the oracle says if it is
asked. -/
structure Call where
  turn : Turn
  a : Profile
  b : Profile
  answer : Oracle.Answer

/-- By what the verdict on a call is remembered. -/
def Call.key (c : Call) : Keccak.Digest × Keccak.Digest :=
  (c.a.fingerprint, c.b.fingerprint)

/-- What judging a call anew finds. -/
def Call.finding (s : Settings) (c : Call) : Finding :=
  judge (s.answering c.answer) c.turn c.a c.b

/-- The answer to a call, and the session after it. -/
def call (s : Settings) (c : Call) (st : Session M) : PairVerdict × Session M :=
  compare (s.answering c.answer) c.turn c.a c.b st

/-- The session after some calls. -/
def after (M : VerdictMap) (s : Settings) (calls : List Call) : Session M :=
  calls.foldl (fun st c => (st.call s c).2) (start M s)

/-- The answer to a call after some others. -/
def reply (M : VerdictMap) (s : Settings) (before : List Call) (c : Call) : PairVerdict :=
  ((after M s before).call s c).1

/-- One more call follows the others. -/
theorem after_concat (M : VerdictMap) (s : Settings) (calls : List Call) (c : Call) :
    after M s (calls ++ [c]) = ((after M s calls).call s c).2 := by
  simp [after]

/-- A call of a run that found nothing in the cache. -/
structure Origin (M : VerdictMap) (s : Settings) (calls before : List Call) (c : Call) : Prop where
  isPrefix : before ++ [c] <+: calls
  misses : Misses s (after M s before) c.key

/-- Where a verdict comes from does not change with further calls. -/
theorem Origin.mono {calls calls' before : List Call} {c : Call} (h : Origin M s calls before c)
    (hcalls : calls <+: calls') : Origin M s calls' before c :=
  ⟨h.isPrefix.trans hcalls, h.misses⟩

/-- The answer to a call that found nothing in the cache is what judging it finds, and the oracle is
asked exactly if judging asks it. -/
theorem Origin.reply_eq {calls before : List Call} {c : Call} (h : Origin M s calls before c) :
    reply M s before c = (c.finding s).verdict ∧
      (after M s (before ++ [c])).oracleCalls
        = (after M s before).oracleCalls + if (c.finding s).outcome.isSome then 1 else 0 := by
  have hmiss : Misses (s.answering c.answer) (after M s before) c.key := h.misses
  obtain ⟨hreply, hcalls, -⟩ := compare_of_misses c.turn hmiss
  rw [after_concat]
  exact ⟨hreply, hcalls⟩

/-- What is remembered after a run was judged by a call of it, and it is final. -/
theorem exists_origin_of_mem (M : VerdictMap) (s : Settings) (calls : List Call) :
    ∀ e ∈ (after M s calls).entries, ∃ before c, Origin M s calls before c ∧ c.key = e.1 ∧
      (c.finding s).verdict = e.2 ∧ (c.finding s).isFinal = true := by
  induction calls using List.reverseRecOn with
  | nil => simp [after, start, entries, M.entries_empty]
  | append_singleton calls d ih =>
      have hold (e) (he : e ∈ (after M s calls).entries) :
          ∃ before c, Origin M s (calls ++ [d]) before c ∧ c.key = e.1 ∧
            (c.finding s).verdict = e.2 ∧ (c.finding s).isFinal = true := by
        obtain ⟨before, c, horigin, h⟩ := ih e he
        exact ⟨before, c, horigin.mono (List.prefix_append _ _), h⟩
      intro e he
      rw [after_concat] at he
      by_cases hmiss : Misses (s.answering d.answer) (after M s calls) d.key
      · obtain ⟨-, -, hentries⟩ := compare_of_misses d.turn hmiss
        rcases hentries e he with he | ⟨rfl, hfinal⟩
        · exact hold e he
        · exact ⟨calls, d, ⟨List.prefix_refl _, hmiss⟩, rfl, rfl, hfinal⟩
      · obtain ⟨-, -, hentries⟩ := compare_of_not_misses d.turn hmiss
        exact hold e (hentries he)

/-- Every answer of a run was judged by a call up to now with the same fingerprints. -/
theorem exists_origin (M : VerdictMap) (s : Settings) (before : List Call) (c : Call) :
    ∃ first d, Origin M s (before ++ [c]) first d ∧ d.key = c.key ∧
      (d.finding s).verdict = reply M s before c := by
  by_cases hmiss : Misses (s.answering c.answer) (after M s before) c.key
  · have horigin : Origin M s (before ++ [c]) before c := ⟨List.prefix_refl _, hmiss⟩
    exact ⟨before, c, horigin, rfl, horigin.reply_eq.1.symm⟩
  · obtain ⟨hfind, -, -⟩ := compare_of_not_misses c.turn hmiss
    obtain ⟨first, d, horigin, hkey, hverdict, -⟩ :=
      exists_origin_of_mem M s before _ (M.mem_entries_of_get hfind)
    exact ⟨first, d, horigin.mono (List.prefix_append _ _), hkey, hverdict⟩

/-- A call that is answered from the cache does not ask the oracle. -/
theorem oracleCalls_of_not_misses {before : List Call} {c : Call}
    (hhit : ¬ Misses s (after M s before) c.key) :
    (after M s (before ++ [c])).oracleCalls = (after M s before).oracleCalls := by
  have hhit' : ¬ Misses (s.answering c.answer) (after M s before) c.key := hhit
  rw [after_concat]
  exact (compare_of_not_misses c.turn hhit').2.1

end Session

end Pathwise
