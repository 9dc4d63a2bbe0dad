import Mathlib.Algebra.GroupWithZero.Nat
import Mathlib.Data.List.Nodup
import Pathwise.Proofs.Session.Soundness

/-!
# A session keeps its books

Every call is counted under several counters, and which ones depends on whether it is answered from
the cache, judged anew, or put to the oracle. This file says that the totals agree all the same, and
that the cache holds nothing but what may be answered again.

* **Counting** (`Metrics.sum_inc`): one count adds one to each total in which it is listed.
* **Steps** (`Session.metrics_call`): what a call counts. It looks into the cache once if there is
  one, asks the oracle only after it has found nothing there, and counts its verdict and the verdict
  in each layer once.
* **Cache** (`Session.length_entries_after`, `Session.judge_final`): the cache stays within its
  size, and a verdict that can be remembered was not cut short.
* **Runs** (`Session.bookkeeping`): both together, after any calls in any contexts, whatever the
  oracle says and with any bounded map for a cache.
-/

namespace Pathwise

/-! ### Counting -/

namespace Metrics

/-- How often any of the listed things was counted. -/
def sum (m : Metrics) (cs : List Counter) : Nat :=
  (cs.map m.count).sum

/-- Nothing is counted at first. -/
theorem sum_empty (cs : List Counter) : empty.sum cs = 0 := by
  unfold sum
  rw [List.sum_eq_zero_iff_forall_eq_nat]
  intro n hn
  obtain ⟨c, -, rfl⟩ := List.mem_map.mp hn
  rfl

/-- Counting adds one to the counter and leaves the others. -/
theorem count_inc (m : Metrics) (c d : Counter) :
    (m.inc c).count d = m.count d + if c = d then 1 else 0 := by
  obtain ⟨counts, observations⟩ := m
  simp only [inc, add, count]
  induction counts with
  | nil => by_cases h : c = d <;> simp [addTo, h]
  | cons e rest ih =>
      obtain ⟨b, n⟩ := e
      by_cases hbc : b = c
      · subst hbc
        by_cases hbd : b = d <;> simp [addTo, hbd]
      · rw [addTo, if_neg hbc]
        by_cases hbd : b = d
        · have hcd : c ≠ d := fun h => hbc (hbd.trans h.symm)
          simp [hbd, hcd]
        · simpa [List.find?_cons, hbd] using ih

/-- A sum grows by as often as the counter is listed in it. -/
theorem sum_inc (m : Metrics) (c : Counter) (cs : List Counter) :
    (m.inc c).sum cs = m.sum cs + cs.count c := by
  unfold sum
  induction cs with
  | nil => rfl
  | cons d ds ih =>
      simp only [List.map_cons, List.sum_cons, ih, count_inc, List.count_cons]
      by_cases h : c = d
      · simp [h]
        omega
      · simp [h, Ne.symm h]
        omega

/-- How often some counts fall under the listed counters. -/
def tally (cs counted : List Counter) : Nat :=
  (counted.map (cs.count ·)).sum

/-- Counts one after the other are added up. -/
theorem tally_append (cs counted counted' : List Counter) :
    tally cs (counted ++ counted') = tally cs counted + tally cs counted' := by
  simp [tally]

/-- Counts under other counters do not fall under the listed ones. -/
theorem tally_eq_zero {cs counted : List Counter} (h : ∀ c ∈ counted, c ∉ cs) :
    tally cs counted = 0 := by
  unfold tally
  rw [List.sum_eq_zero_iff_forall_eq_nat]
  intro n hn
  obtain ⟨c, hc, rfl⟩ := List.mem_map.mp hn
  exact List.count_eq_zero_of_not_mem (h c hc)

/-- A sum grows by the counts that fall under its counters. -/
theorem sum_foldl_inc (m : Metrics) (counted cs : List Counter) :
    (counted.foldl inc m).sum cs = m.sum cs + tally cs counted := by
  induction counted generalizing m with
  | nil => rfl
  | cons c counted ih =>
      rw [List.foldl_cons, ih, sum_inc, Nat.add_assoc]
      rfl

/-- Counting observes no duration. -/
theorem observations_foldl_inc (m : Metrics) (counted : List Counter) :
    (counted.foldl inc m).observations = m.observations := by
  induction counted generalizing m with
  | nil => rfl
  | cons c counted ih =>
      rw [List.foldl_cons, ih]
      rfl

/-- Counts a call under some counters, each once, and observes its duration. -/
def record (m : Metrics) (counted : List Counter) : Metrics :=
  { counted.foldl inc m with observations := m.observations + 1 }

/-- Recording a call adds to a sum the counts that fall under its counters. -/
theorem sum_record (m : Metrics) (counted cs : List Counter) :
    (m.record counted).sum cs = m.sum cs + tally cs counted :=
  sum_foldl_inc m counted cs

end Metrics

/-- What a verdict is counted under. -/
def PairVerdict.counters (v : PairVerdict) : List Counter :=
  .comparison v.verdict :: v.layers.toList.map fun r => .layer r.layer r.verdict

/-- Observing a verdict counts it, and each layer of it, once. -/
theorem Metrics.observe_eq (m : Metrics) (v : PairVerdict) : m.observe v = m.record v.counters := by
  have hobservations := observations_foldl_inc m v.counters
  unfold PairVerdict.counters at hobservations
  rw [List.foldl_cons, List.foldl_map] at hobservations
  unfold observe record PairVerdict.counters
  rw [List.foldl_cons, List.foldl_map]
  simp only [hobservations]

namespace Session

variable {M : VerdictMap}

/-! ### One call -/

/-- What a call to an oracle is counted under. -/
def callCounters (call : Option (String × Outcome)) : List Counter :=
  call.toList.map fun x => .oracleCall x.1 x.2.name

/-- What a call in a given state of the session is counted under. -/
def Call.counters (s : Settings) (st : Session M) (c : Call) : List Counter :=
  let asked := callCounters (c.finding s).outcome
  let answered := (st.call s c).1.counters
  match s.cacheSize, (M.get st.cache c.key).1 with
  | none, _ => asked ++ answered
  | some _, some _ => .cacheHit :: answered
  | some _, none => .cacheMiss :: (asked ++ answered)

/-- A call of an oracle is counted under its name and its outcome, if there was one. -/
theorem metrics_countCall (call : Option (String × Outcome)) (st : Session M) :
    (st.countCall call).metrics = (callCounters call).foldl Metrics.inc st.metrics := by
  cases call <;> rfl

/-- A comparison that is made counts the call of the oracle and its verdict. -/
theorem metrics_compareAnew (s : Settings) (turn : Turn) (a b : Profile) (st : Session M) :
    let found := judge s turn a b
    (compareAnew s turn a b st).2.metrics
      = st.metrics.record (callCounters found.outcome ++ found.verdict.counters) := by
  intro found
  have hremember (v : PairVerdict) (st : Session M) :
      (st.remember s a b v).metrics = st.metrics := by
    unfold remember
    split <;> rfl
  have hobserved (st' : Session M) (hst : st'.metrics = (st.countCall found.outcome).metrics) :
      (st'.observe found.verdict).metrics
        = st.metrics.record (callCounters found.outcome ++ found.verdict.counters) := by
    show st'.metrics.observe found.verdict = _
    rw [Metrics.observe_eq, hst, metrics_countCall]
    unfold Metrics.record
    rw [← List.foldl_append, Metrics.observations_foldl_inc]
  unfold compareAnew
  by_cases hfinal : (judge s turn a b).isFinal = true
  · simp only [hfinal, if_true]
    exact hobserved _ (hremember _ _)
  · simp only [hfinal]
    exact hobserved _ rfl

/-- A call counts once what it is counted under, and its duration is observed. -/
theorem metrics_call (s : Settings) (c : Call) (st : Session M) :
    (st.call s c).2.metrics = st.metrics.record (c.counters s st) := by
  have hsize : (s.answering c.answer).cacheSize = s.cacheSize := rfl
  have hkey : (c.a.fingerprint, c.b.fingerprint) = c.key := rfl
  unfold Call.counters call compare
  simp only [hsize, hkey]
  cases s.cacheSize with
  | none => exact metrics_compareAnew _ _ _ _ _
  | some n =>
      simp only [Option.isNone_some, Bool.false_eq_true, if_false]
      cases (M.get st.cache c.key).1 with
      | some v => exact Metrics.observe_eq _ _
      | none => exact metrics_compareAnew _ _ _ _ _

end Session

/-! ### Totals -/

namespace Metrics

/-- All verdicts on pairs. -/
def comparisons : List Counter :=
  Verdict.all.map .comparison

/-- All verdicts in a layer. -/
def layerVerdicts (l : Layer) : List Counter :=
  Verdict.all.map (.layer l)

/-- Calls to oracles, by the name of the oracle and what the call came to. -/
def oracleCalls (labels : List (String × String)) : List Counter :=
  labels.map fun x => .oracleCall x.1 x.2

/-- Every verdict of a comparison is counted once in their total. -/
theorem count_comparisons (v : Verdict) : comparisons.count (.comparison v) = 1 := by
  cases v <;> decide

/-- Every verdict in a layer is counted once in the total of that layer, and in no other. -/
theorem count_layerVerdicts (l k : Layer) (v : Verdict) :
    (layerVerdicts l).count (.layer k v) = if k = l then 1 else 0 := by
  cases l <;> cases k <;> cases v <;> decide

/-- The totals of a session after some calls agree. With a cache, every call looks into it, and no
more calls have asked an oracle than found nothing there. -/
structure Balanced (s : Settings) (calls : Nat) (m : Metrics) : Prop where
  comparisons : m.sum comparisons = calls
  observations : m.observations = calls
  layers : ∀ l, m.sum (layerVerdicts l) = calls
  lookups : s.cacheSize.isSome → m.count .cacheHit + m.count .cacheMiss = calls
  oracleCalls : s.cacheSize.isSome →
    ∀ labels : List (String × String), labels.Nodup →
      m.sum (oracleCalls labels) ≤ m.count .cacheMiss

end Metrics

/-- A verdict has the result for each layer in its place. -/
def PairVerdict.Placed (v : PairVerdict) : Prop :=
  ∀ l, (v.layers.get l).layer = l

namespace PairVerdict

variable {v : PairVerdict}

/-- A verdict adds one to the total of comparisons. -/
theorem tally_comparisons (v : PairVerdict) : Metrics.tally Metrics.comparisons v.counters = 1 := by
  have hlayer (l : Layer) (w : Verdict) : Metrics.comparisons.count (.layer l w) = 0 :=
    List.count_eq_zero.mpr (by simp [Metrics.comparisons])
  simp [Metrics.tally, counters, Layered.toList, Metrics.count_comparisons, hlayer]

/-- A verdict falls under nothing but the totals of pairs and layers. -/
theorem tally_eq_zero {cs : List Counter} (hpair : ∀ w, .comparison w ∉ cs)
    (hlayer : ∀ l w, .layer l w ∉ cs) (v : PairVerdict) : Metrics.tally cs v.counters = 0 := by
  refine Metrics.tally_eq_zero fun c hc => ?_
  rcases List.mem_cons.mp hc with rfl | hc
  · exact hpair _
  · obtain ⟨r, -, rfl⟩ := List.mem_map.mp hc
    exact hlayer _ _

/-- A verdict adds one to the total of each layer. -/
theorem Placed.tally_layerVerdicts (hv : v.Placed) (l : Layer) :
    Metrics.tally (Metrics.layerVerdicts l) v.counters = 1 := by
  have hcomparison (w : Verdict) : (Metrics.layerVerdicts l).count (.comparison w) = 0 :=
    List.count_eq_zero.mpr (by simp [Metrics.layerVerdicts])
  have hcontrol : v.layers.controlFlow.layer = .controlFlow := hv .controlFlow
  have hmemory : v.layers.memory.layer = .memory := hv .memory
  have htransform : v.layers.transform.layer = .transform := hv .transform
  simp only [Metrics.tally, counters, Layered.toList, List.map_cons, List.map_nil, List.sum_cons,
    List.sum_nil, Metrics.count_layerVerdicts, hcomparison, hcontrol, hmemory, htransform]
  cases l <;> rfl

end PairVerdict

namespace Session

variable {M : VerdictMap} {s : Settings} {st : Session M}

/-- How a call can look into the cache and ask the oracle: there is no cache, or something is found
in it and the oracle is not asked, or nothing is found. -/
def Looked (s : Settings) (looked : List Counter) (asked : Option (String × Outcome)) : Prop :=
  s.cacheSize = none ∧ looked = [] ∨ looked = [.cacheHit] ∧ asked = none ∨ looked = [.cacheMiss]

/-- What a call is counted under has three parts: looking into the cache, asking the oracle, and the
verdict. -/
theorem Call.counters_eq (s : Settings) (st : Session M) (c : Call) :
    ∃ looked asked, Looked s looked asked ∧
      c.counters s st = looked ++ (callCounters asked ++ (st.call s c).1.counters) := by
  unfold counters
  cases hsize : s.cacheSize with
  | none => exact ⟨[], _, .inl ⟨hsize, rfl⟩, rfl⟩
  | some n =>
      cases (M.get st.cache c.key).1 with
      | some v => exact ⟨[.cacheHit], none, .inr (.inl ⟨rfl, rfl⟩), rfl⟩
      | none => exact ⟨[.cacheMiss], _, .inr (.inr rfl), rfl⟩

/-- Looking into the cache counts under nothing but a hit or a miss. -/
theorem Looked.tally_eq_zero {looked : List Counter} {asked : Option (String × Outcome)}
    (h : Looked s looked asked) {cs : List Counter} (hhit : .cacheHit ∉ cs)
    (hmiss : .cacheMiss ∉ cs) : Metrics.tally cs looked = 0 := by
  refine Metrics.tally_eq_zero fun d hd => ?_
  rcases h with ⟨-, rfl⟩ | ⟨rfl, -⟩ | rfl <;> simp_all

/-- With a cache, each call finds something in it or does not. -/
theorem Looked.tally_hit_add_miss {looked : List Counter} {asked : Option (String × Outcome)}
    (h : Looked s looked asked) (hsize : s.cacheSize.isSome) :
    Metrics.tally [.cacheHit] looked + Metrics.tally [.cacheMiss] looked = 1 := by
  rcases h with ⟨hoff, -⟩ | ⟨rfl, -⟩ | rfl
  · simp [hoff] at hsize
  · rfl
  · rfl

/-- With a cache, the oracle is asked only if nothing is found in it. -/
theorem Looked.asked_le_miss {looked : List Counter} {asked : Option (String × Outcome)}
    (h : Looked s looked asked) (hsize : s.cacheSize.isSome) :
    (if asked.isSome then 1 else 0) ≤ Metrics.tally [.cacheMiss] looked := by
  rcases h with ⟨hoff, -⟩ | ⟨rfl, rfl⟩ | rfl
  · simp [hoff] at hsize
  · exact Nat.le_refl 0
  · have hmiss : Metrics.tally [.cacheMiss] [.cacheMiss] = 1 := rfl
    split <;> omega

/-- Asking the oracle counts under nothing but calls of oracles. -/
theorem tally_callCounters_eq_zero {cs : List Counter} (h : ∀ o r, .oracleCall o r ∉ cs)
    (asked : Option (String × Outcome)) : Metrics.tally cs (callCounters asked) = 0 := by
  refine Metrics.tally_eq_zero fun d hd => ?_
  obtain ⟨x, -, rfl⟩ := List.mem_map.mp hd
  exact h _ _

/-- An oracle is counted once if it is asked. -/
theorem tally_callCounters_le {labels : List (String × String)} (hlabels : labels.Nodup)
    (asked : Option (String × Outcome)) :
    Metrics.tally (Metrics.oracleCalls labels) (callCounters asked)
      ≤ if asked.isSome then 1 else 0 := by
  cases asked with
  | none => exact Nat.le_refl 0
  | some x =>
      have hnodup : (Metrics.oracleCalls labels).Nodup := by
        refine List.Nodup.map ?_ hlabels
        rintro ⟨o, r⟩ ⟨o', r'⟩ h
        simpa using h
      simpa [Metrics.tally, callCounters] using List.nodup_iff_count_le_one.mp hnodup _

/-- One more call keeps the totals in balance: a look into the cache, a question to the oracle and a
verdict each fall under totals of their own. -/
theorem balanced_call {n : Nat} (hm : st.metrics.Balanced s n) (c : Call)
    (hplaced : (st.call s c).1.Placed) : (st.call s c).2.metrics.Balanced s (n + 1) := by
  obtain ⟨looked, asked, hlooked, hcounters⟩ := c.counters_eq s st
  have hsum (cs : List Counter) : (st.call s c).2.metrics.sum cs
      = st.metrics.sum cs + (Metrics.tally cs looked + (Metrics.tally cs (callCounters asked) +
        Metrics.tally cs (st.call s c).1.counters)) := by
    rw [metrics_call, Metrics.sum_record, hcounters, Metrics.tally_append, Metrics.tally_append]
  have hcount {d : Counter} (hd : d = .cacheHit ∨ d = .cacheMiss) :
      (st.call s c).2.metrics.count d = st.metrics.count d + Metrics.tally [d] looked := by
    have hsingle := hsum [d]
    rw [tally_callCounters_eq_zero (by rcases hd with rfl | rfl <;> simp),
      PairVerdict.tally_eq_zero (by rcases hd with rfl | rfl <;> simp)
        (by rcases hd with rfl | rfl <;> simp)] at hsingle
    simpa [Metrics.sum] using hsingle
  constructor
  case comparisons =>
    rw [hsum, hm.comparisons, hlooked.tally_eq_zero (by simp [Metrics.comparisons])
      (by simp [Metrics.comparisons]), tally_callCounters_eq_zero (by simp [Metrics.comparisons]),
      PairVerdict.tally_comparisons]
  case observations =>
    rw [metrics_call, ← hm.observations]
    rfl
  case layers =>
    intro l
    rw [hsum, hm.layers, hlooked.tally_eq_zero (by simp [Metrics.layerVerdicts])
      (by simp [Metrics.layerVerdicts]),
      tally_callCounters_eq_zero (by simp [Metrics.layerVerdicts]), hplaced.tally_layerVerdicts]
  case lookups =>
    intro hsize
    have hone := hlooked.tally_hit_add_miss hsize
    rw [hcount (.inl rfl), hcount (.inr rfl), ← hm.lookups hsize]
    omega
  case oracleCalls =>
    intro hsize labels hlabels
    have hle := hm.oracleCalls hsize labels hlabels
    have hasked := tally_callCounters_le hlabels asked
    have hmiss := hlooked.asked_le_miss hsize
    rw [hsum, hcount (.inr rfl), hlooked.tally_eq_zero (by simp [Metrics.oracleCalls])
      (by simp [Metrics.oracleCalls]), PairVerdict.tally_eq_zero (by simp [Metrics.oracleCalls])
      (by simp [Metrics.oracleCalls])]
    omega

end Session

/-! ### The cache -/

namespace Session

variable {M : VerdictMap} {s : Settings} {turn : Turn} {a b : Profile} {st : Session M}

/-- A call does not change for how many verdicts there is room. -/
theorem capacity_call (s : Settings) (c : Call) (st : Session M) :
    M.capacity (st.call s c).2.cache = M.capacity st.cache := by
  have hanew (s : Settings) (st : Session M) :
      M.capacity (compareAnew s c.turn c.a c.b st).2.cache = M.capacity st.cache := by
    unfold compareAnew remember
    simp only [cache_observe]
    split
    · split
      · rw [M.capacity_add, cache_countCall]
      · rw [cache_countCall]
    · rw [cache_countCall]
  unfold call compare
  simp only
  split
  · exact hanew _ st
  · split
    · exact M.capacity_get _ _
    · exact (hanew _ _).trans (M.capacity_get _ _)

/-- No more is remembered than there is room for. -/
theorem length_entries_after (M : VerdictMap) (s : Settings) (calls : List Call) :
    (after M s calls).entries.length ≤ s.cacheSize.getD 0 := by
  have hcapacity : M.capacity (after M s calls).cache = s.cacheSize.getD 0 := by
    induction calls using List.reverseRecOn with
    | nil => exact M.capacity_empty _
    | append_singleton calls c ih => rw [after_concat, capacity_call, ih]
  exact hcapacity ▸ M.length_entries _

/-- An answer is final if it does not report the end of the time or of the context. -/
theorem Outcome.isFinal_ofAnswer_iff {name : String} {answer : Oracle.Answer} :
    (ofAnswer name answer).isFinal = true ↔
      answer.error ≠ some .deadline ∧ answer.error ≠ some .cancelled := by
  obtain ⟨value, error⟩ := answer
  unfold ofAnswer
  cases error with
  | none =>
      simp only
      split
      · simp [isFinal]
      · split <;> simp [isFinal]
  | some e => cases e <;> simp [isFinal]

/-- An oracle has its say if its answer is waited for, and is final. -/
theorem isFinal_consult_iff {o : Oracle} :
    (consult o turn a b).isFinal = true ↔
      turn.ending = .answered ∧ (o.decide turn.ctx a b).error ≠ some .deadline ∧
        (o.decide turn.ctx a b).error ≠ some .cancelled := by
  rw [consult, Outcome.isFinal_ofAnswer_iff]
  cases turn.ending <;> simp [Oracle.Ending.result, Oracle.Answer.failed]

/-- A verdict that can be remembered was not cut short, and neither was the oracle if it was
asked. -/
theorem judge_final (h : (judge s turn a b).isFinal = true) :
    (judge s turn a b).verdict.timedOut = false ∧
      ((judge s turn a b).outcome.isSome → ∃ o, s.oracle = some o ∧
        (consult o turn a b).isFinal = true) := by
  rcases judge_cases s turn a b with ⟨-, hjudge⟩ | ⟨-, -, o, ho, hjudge⟩ | ⟨-, -, hjudge⟩
  · rw [hjudge]
    refine ⟨?_, fun hasked => absurd hasked Bool.false_ne_true⟩
    simp only [withOutputs]
    split <;> rfl
  · rw [hjudge] at h ⊢
    refine ⟨?_, fun _ => ⟨o, ho, h⟩⟩
    simp only at h
    generalize consult o turn a b = outcome at h
    cases outcome <;> first | rfl | cases h
  · rw [hjudge]
    exact ⟨rfl, fun hasked => absurd hasked Bool.false_ne_true⟩

/-! ### Runs -/

/-- An oracle that was asked in this call had its say: its answer was waited for, and reported
neither a deadline nor a cancellation. -/
structure Call.Completed (c : Call) : Prop where
  answered : c.turn.ending = .answered
  noDeadline : c.answer.error ≠ some .deadline
  notCancelled : c.answer.error ≠ some .cancelled

/-- A final finding was not cut short: if the oracle was asked, its call was completed. -/
theorem Call.finding_final {c : Call} (h : (c.finding s).isFinal = true) :
    (c.finding s).verdict.timedOut = false ∧ ((c.finding s).outcome.isSome → c.Completed) := by
  obtain ⟨htime, hasked⟩ := judge_final h
  refine ⟨htime, fun hsome => ?_⟩
  obtain ⟨o, ho, hfinal⟩ := hasked hsome
  obtain ⟨o', -, rfl⟩ := Option.map_eq_some_iff.mp ho
  obtain ⟨hanswered, hdeadline, hcancelled⟩ := isFinal_consult_iff.mp hfinal
  exact ⟨hanswered, hdeadline, hcancelled⟩

/-- Every answer of a run has the layers in their places, also one that comes from the cache. -/
theorem placed_reply (M : VerdictMap) (s : Settings) (before : List Call) (c : Call) :
    (reply M s before c).Placed := by
  obtain ⟨first, d, -, -, hverdict⟩ := exists_origin M s before c
  rw [← hverdict]
  intro l
  rw [show (d.finding s).verdict.layers = _ from judge_layers _ d.turn d.a d.b]
  cases l <;> rfl

/-- The totals agree after any calls. -/
theorem balanced_after (M : VerdictMap) (s : Settings) (calls : List Call) :
    (after M s calls).metrics.Balanced s calls.length := by
  induction calls using List.reverseRecOn with
  | nil =>
      refine ⟨rfl, rfl, fun _ => rfl, fun _ => rfl, fun _ _ _ => ?_⟩
      exact Nat.le_of_eq (Metrics.sum_empty _)
  | append_singleton calls c ih =>
      rw [after_concat, List.length_append]
      exact balanced_call ih c (placed_reply M s calls c)

/-- **A session keeps its books.** After any calls, each with its own context, its own answer from
the oracle and its own end of the wait for that answer:

* every verdict in the cache has not timed out, and goes back to a call of the run that was judged
  anew, and in which the oracle had its say if it was asked;
* the cache holds no more than its size, and nothing if it is off;
* the verdicts on pairs and the verdicts in each layer are as many as the observed durations and as
  the calls. With a cache so are the hits and misses together, and calls to the oracle, under any
  labels, are at most as many as the misses. -/
theorem bookkeeping (M : VerdictMap) (s : Settings) (calls : List Call) :
    (∀ e ∈ (after M s calls).entries, e.2.timedOut = false ∧
      ∃ before c, Origin M s calls before c ∧ c.key = e.1 ∧ (c.finding s).verdict = e.2 ∧
        ((c.finding s).outcome.isSome → c.Completed)) ∧
    (after M s calls).entries.length ≤ s.cacheSize.getD 0 ∧
    (after M s calls).metrics.Balanced s calls.length := by
  refine ⟨fun e he => ?_, length_entries_after M s calls, balanced_after M s calls⟩
  obtain ⟨before, c, horigin, hkey, hverdict, hfinal⟩ := exists_origin_of_mem M s calls e he
  obtain ⟨htime, hcompleted⟩ := Call.finding_final hfinal
  exact ⟨hverdict ▸ htime, before, c, horigin, hkey, hverdict, hcompleted⟩

end Session

end Pathwise
