import Pathwise.Proofs.Oracle.Decision
import Pathwise.Proofs.Profile.Content
import Pathwise.Proofs.Session.Soundness
import Pathwise.Proofs.Term.Equality

/-!
# The cache is seen through

A session with a cache should answer as one without. It does as long as paths with the same
fingerprint cannot be told apart by a comparison.

* **What is read** (`Session.structural_congr`, `Sampling.answer_congr`): the layers and the outputs
  read of a path what its content lists. The sampling oracle also reads the recorded memory, the
  constraints themselves, and the label of the path, and these are not in the content.
* **Runs** (`Session.transcript_eq`): every entry of the cache is what judging a call anew finds, so
  if equal fingerprints mean equal findings, the cache is not seen.
* **When it is not seen** (`Session.cache_transparent`), and **when it is**
  (`Session.cache_not_transparent`): two paths that differ in a location that is touched in passing.
-/

namespace Pathwise

/-! ### What a comparison reads -/

/-- Paths that agree in all that is read of them without an oracle. -/
structure Profile.Alike (a a' : Profile) : Prop where
  inputs : a.path.inputs = a'.path.inputs
  domains : a.domains = a'.domains
  accesses : a.accesses = a'.accesses
  transformations : a.transformations = a'.transformations
  output : a.path.output = a'.path.output

/-- Paths that agree in what the sampling oracle reads of them beyond that. -/
structure Path.SampledAlike (p q : Path) : Prop where
  memory : p.memory = q.memory
  constraints : p.constraints = q.constraints
  label : p.label = q.label

/-- Paths that a cache can identify by their fingerprints: there are no line breaks in their names
and constraints, no two with different contents have the same fingerprint, and if an oracle is
asked, those with the same content agree in what it reads beyond that. -/
structure Path.Identified (s : Settings) (ps : List Path) : Prop where
  unbroken : ∀ p ∈ ps, p.Unbroken
  digests : ∀ p ∈ ps, ∀ q ∈ ps,
    (Profile.ofPath p).fingerprint = (Profile.ofPath q).fingerprint → p.content = q.content
  sampled : s.oracle.isSome → ∀ p ∈ ps, ∀ q ∈ ps, p.content = q.content → p.SampledAlike q

/-- Paths with the same content look the same to comparisons. -/
theorem Path.alike_of_content {p q : Path} (hp : p.Unbroken) (hq : q.Unbroken)
    (h : p.content = q.content) : (Profile.ofPath p).Alike (.ofPath q) := by
  obtain ⟨hdeclared, hdomains, haccesses, htransformations, -, houtput⟩ := eq_of_content hp hq h
  exact ⟨congrArg (List.filter _) hdeclared, hdomains, haccesses, htransformations, houtput⟩

/-- Paths that are identified by their fingerprints look the same to comparisons. -/
theorem Path.Identified.alike {s : Settings} {ps : List Path} (h : Identified s ps) {p q : Path}
    (hp : p ∈ ps) (hq : q ∈ ps)
    (hdigest : (Profile.ofPath p).fingerprint = (Profile.ofPath q).fingerprint) :
    (Profile.ofPath p).Alike (.ofPath q) :=
  alike_of_content (h.unbroken p hp) (h.unbroken q hq) (h.digests p hp q hq hdigest)

/-- Where an oracle is asked, paths that are identified look the same to it, too. -/
theorem Path.Identified.sampledAlike {s : Settings} {ps : List Path} (h : Identified s ps)
    (hsome : s.oracle.isSome) {p q : Path} (hp : p ∈ ps) (hq : q ∈ ps)
    (hdigest : (Profile.ofPath p).fingerprint = (Profile.ofPath q).fingerprint) :
    p.SampledAlike q :=
  h.sampled hsome p hp q hq (h.digests p hp q hq hdigest)

variable {a a' b b' : Profile} {s : Settings} {turn : Turn}

/-- The layers compare what looks the same alike. -/
theorem Session.structural_congr (s : Settings) (ha : a.Alike a') (hb : b.Alike b') :
    structural s a b = structural s a' b' := by
  simp only [structural, ControlFlow.compare, Memory.compare, Transform.compare, ha.inputs,
    ha.domains, ha.accesses, ha.transformations, hb.inputs, hb.domains, hb.accesses,
    hb.transformations]

section Sampling

variable (ha : a.Alike a') (hb : b.Alike b') (ha' : a.path.SampledAlike a'.path)
  (hb' : b.path.SampledAlike b'.path)

include ha hb ha' hb'

/-- Symbols are paired alike in what looks the same. -/
theorem Symbol.pair_congr : pair a.path b.path = pair a'.path b'.path := by
  have hnames {p q : Path} (h : p.memory = q.memory) : p.memoryNames = q.memoryNames := by
    simp only [Path.memoryNames, Path.namedLocations, Path.memoryKey, Path.bases,
      Path.lowestAddress, h]
  simp only [pair, ha.inputs, hb.inputs, hnames ha'.memory, hnames hb'.memory]

/-- Candidates are chosen alike in what looks the same. -/
theorem Symbol.candidates_congr (symbols : List Symbol) :
    candidates a b symbols = candidates a' b' symbols := by
  simp only [candidates, allCandidates, boundaries, literals, ha.domains, hb.domains,
    ha'.constraints, hb'.constraints]

/-- Samples give the same answer on what looks the same. -/
theorem Sampling.answer_congr (rng : Generator) (limit : Nat) (ctx : Context) :
    answer rng limit ctx a b = answer rng limit ctx a' b' := by
  have hcompare (symbols candidates choices) :
      compareOn a.path b.path symbols candidates choices
        = compareOn a'.path b'.path symbols candidates choices := by
    induction choices with
    | nil => rfl
    | cons choice rest ih =>
        simp only [compareOn, verdictOn, ha'.constraints, ha'.label, hb'.constraints, hb'.label, ih]
  simp only [answer, Symbol.pair_congr ha hb ha' hb', Symbol.candidates_congr ha hb ha' hb',
    hcompare]

end Sampling

namespace Session

/-- Judging gives the same verdict on paths that agree in all that is read of them. -/
theorem judge_congr (ha : a.Alike a') (hb : b.Alike b')
    (horacle : ∀ o, s.oracle = some o → o.decide turn.ctx a b = o.decide turn.ctx a' b') :
    judge s turn a b = judge s turn a' b' := by
  have hstructural := structural_congr s ha hb
  have hnote : outputNote a b = outputNote a' b' := by
    unfold outputNote
    rw [ha.output, hb.output]
  have houtputs (v) : withOutputs a b v = withOutputs a' b' v := by
    unfold withOutputs
    rw [hnote]
  simp only [judge, consult, hstructural, houtputs, ha.output, hb.output]
  generalize structural s a' b' = v
  cases ho : s.oracle with
  | none => cases v.verdict <;> rfl
  | some o => cases v.verdict <;> simp only [horacle o ho]

end Session

/-- The content does not depend on what memory a path has touched. -/
theorem Path.content_congr {p q : Path} (hdeclared : p.declared = q.declared)
    (hconstraints : p.constraints = q.constraints) (houtput : p.output = q.output) :
    p.content = q.content := by
  simp only [content, Profile.contentText, Profile.contentLines, domains, accesses,
    transformations, inputs, bucket, hdeclared, hconstraints, houtput]

/-- The fingerprint is that of the content. -/
theorem Path.fingerprint_congr {p q : Path} (h : p.content = q.content) :
    (Profile.ofPath p).fingerprint = (Profile.ofPath q).fingerprint :=
  congrArg (fun s : String => Keccak.digest s.toUTF8.toList) h

/-- The only oracle that a strategy can name is that of samples. -/
theorem Oracle.eq_sampling_of_strategy {rng : Sampling.Generator} {strategy : String}
    {maxSamples : Int} {o : Oracle} (h : ofStrategy rng strategy maxSamples = .ok (some o)) :
    ∃ limit, o = Sampling.oracle rng limit := by
  unfold ofStrategy at h
  split at h <;> simp at h
  all_goals exact ⟨_, h.symm⟩

/-! ### Runs -/

/-- Settings without the cache. -/
def Settings.uncached (s : Settings) : Settings :=
  { s with cacheSize := none }

namespace Session

variable {M : VerdictMap}

/-- The answers to comparisons in the same circumstances, one after the other. -/
def transcript (s : Settings) (turn : Turn) :
    List (Profile × Profile) → Session M → List PairVerdict
  | [], _ => []
  | (a, b) :: rest, st =>
    (compare s turn a b st).1 :: transcript s turn rest (compare s turn a b st).2

/-- Without the cache, every comparison is judged anew. -/
theorem compare_uncached (s : Settings) (turn : Turn) (a b : Profile) (st : Session M) :
    (compare s.uncached turn a b st).1 = (judge s turn a b).verdict := rfl

/-- All that is remembered is what judging one of some calls finds. -/
def Remembers (s : Settings) (turn : Turn) (calls : List (Profile × Profile))
    (st : Session M) : Prop :=
  ∀ e ∈ st.entries, ∃ c ∈ calls,
    e = ((c.1.fingerprint, c.2.fingerprint), (judge s turn c.1 c.2).verdict)

section Calls

variable {calls : List (Profile × Profile)}
  (hkeys : ∀ c ∈ calls, ∀ d ∈ calls, c.1.fingerprint = d.1.fingerprint →
    c.2.fingerprint = d.2.fingerprint → judge s turn c.1 c.2 = judge s turn d.1 d.2)

include hkeys

/-- If equal fingerprints mean equal findings, each answer is what judging finds. -/
theorem compare_of_remembers {st : Session M} (hst : Remembers s turn calls st) {a b : Profile}
    (hab : (a, b) ∈ calls) :
    (compare s turn a b st).1 = (judge s turn a b).verdict ∧
      Remembers s turn calls (compare s turn a b st).2 := by
  by_cases hmiss : Misses s st (a.fingerprint, b.fingerprint)
  · obtain ⟨hreply, -, hentries⟩ := compare_of_misses turn hmiss
    refine ⟨hreply, fun e he => ?_⟩
    rcases hentries e he with he | ⟨rfl, -⟩
    · exact hst e he
    · exact ⟨(a, b), hab, rfl⟩
  · obtain ⟨hfind, -, hentries⟩ := compare_of_not_misses turn hmiss
    refine ⟨?_, fun e he => hst e (hentries he)⟩
    obtain ⟨c, hc, hentry⟩ := hst _ (M.mem_entries_of_get hfind)
    simp only [Prod.mk.injEq] at hentry
    obtain ⟨⟨hA, hB⟩, hverdict⟩ := hentry
    rw [hverdict, hkeys (a, b) hab c hc hA hB]

/-- If pairs with the same fingerprints get the same verdict, a session answers each call as if it
were made alone. -/
theorem transcript_eq :
    transcript s turn calls (start M s) = calls.map fun c => (judge s turn c.1 c.2).verdict := by
  suffices hrun : ∀ rest ⊆ calls, ∀ st : Session M, Remembers s turn calls st →
      transcript s turn rest st = rest.map fun c => (judge s turn c.1 c.2).verdict from
    hrun calls (List.Subset.refl _) (start M s) fun e he => by
      rw [entries, start, M.entries_empty] at he
      cases he
  intro rest hrest st hst
  induction rest generalizing st with
  | nil => rfl
  | cons c rest ih =>
      obtain ⟨hc, hrest⟩ := List.cons_subset.mp hrest
      obtain ⟨hreply, hst⟩ := compare_of_remembers hkeys hst hc
      rw [transcript, hreply, ih hrest _ hst, List.map_cons]

end Calls

end Session

/-! ### Open pairs -/

/-- Paths that transform nothing agree in that. -/
theorem Transform.verdict_of_nil {a b : Profile} (ha : a.transformations = [])
    (hb : b.transformations = []) : (Transform.compare a b).verdict = .equivalent := by
  simp [Transform.compare, Transform.firstDifference?, Transform.occurring, firsts, ha, hb]

namespace Session

/-- The circumstances in which answers are waited for. -/
def inTime : Turn :=
  ⟨.live, .answered⟩

/-- Verdicts are remembered as long as there is room for others. -/
abbrev recent : VerdictMap :=
  Cache.leastRecent _ _

/-- What is compared again is answered with what was found first, if that is final. -/
theorem transcript_again {s : Settings} {n : Nat} (hsize : s.cacheSize = some (n + 1))
    {a a' b b' : Profile} (hA : a.fingerprint = a'.fingerprint)
    (hB : b.fingerprint = b'.fingerprint) (hfinal : (judge s turn a b).isFinal = true) :
    transcript s turn [(a, b), (a', b')] (start recent s)
      = [(judge s turn a b).verdict, (judge s turn a b).verdict] := by
  have hmiss : Misses s (start recent s) (a.fingerprint, b.fingerprint) :=
    .inr (Cache.get_fst _ _)
  have hfirst := (compare_of_misses turn hmiss).1
  have hfind : (recent.get (compare s turn a b (start recent s)).2.cache
      (a'.fingerprint, b'.fingerprint)).1 = some (judge s turn a b).verdict := by
    refine (Cache.get_fst _ _).trans ?_
    have hget : recent.get (start recent s).cache (a.fingerprint, b.fingerprint)
        = (none, (start recent s).cache) := rfl
    simp only [compare, compareAnew, remember, hsize, hfinal, hget, ← hA, ← hB]
    simp only [Option.isNone_some, Option.isSome_some, Bool.false_eq_true, if_false, if_true,
      cache_observe, cache_countCall, cache_count]
    refine Cache.find?_add ?_ _ _
    show 0 < s.cacheSize.getD 0
    simp [hsize]
  have hhit : ¬ Misses s (compare s turn a b (start recent s)).2
      (a'.fingerprint, b'.fingerprint) := by
    simp [Misses, hsize, hfind]
  have hsecond := (compare_of_not_misses turn hhit).1
  rw [hfind] at hsecond
  simp only [transcript, hfirst, ← Option.some.inj hsecond]

/-- If only memory does not decide, the layers leave the pair open. -/
theorem structural_of_layers {s : Settings} {a b : Profile}
    (hcontrol : (ControlFlow.compare a b).verdict = .equivalent)
    (hmemory : (Memory.compare s.policy s.thresholds a b).verdict = .unknown)
    (htransform : (Transform.compare a b).verdict = .equivalent) :
    (structural s a b).verdict = .unknown := by
  simp [structural, Aggregate.combine, Aggregate.overall, Aggregate.placed, Layered.ofFn,
    Layered.toList, Layered.get, hcontrol, hmemory, htransform]

/-- An open verdict is what the samples say. -/
theorem judge_sampled {s : Settings} {rng : Sampling.Generator} {a b : Profile} {limit : Nat}
    {value : Bool}
    (hopen : (structural s a b).verdict = .unknown)
    (houtput : a.path.output.differs b.path.output = false)
    (horacle : s.oracle = some (Sampling.oracle rng limit))
    (hanswer : (Sampling.oracle rng limit).decide .live a b = .ok value) :
    (judge s inTime a b).isFinal = true ∧ (judge s inTime a b).outcome.isSome ∧
      (judge s inTime a b).verdict.verdict = if value then .equivalent else .notEquivalent := by
  rcases judge_cases s inTime a b with ⟨⟨-, hdiffers⟩, -⟩ | ⟨-, -, o, ho, hjudge⟩ | ⟨-, hnone, -⟩
  · exact absurd (houtput.symm.trans hdiffers) (by decide)
  · obtain rfl : Sampling.oracle rng limit = o := Option.some.inj (horacle.symm.trans ho)
    have hconsult : consult (Sampling.oracle rng limit) inTime a b
        = .ofAnswer "sampling" (.ok value) := congrArg (Outcome.ofAnswer "sampling") hanswer
    rw [hjudge, hconsult]
    cases value <;>
      simp [Outcome.ofAnswer, Oracle.Answer.ok, Outcome.isFinal, withOutcome, Outcome.settle]
  · exact absurd (horacle.symm.trans (hnone hopen)) (by simp)

/-- Whether the layers leave two paths open that make no transformations and have symbols of one bit
only, and samples then decide as given. -/
def samplesDecide (s : Settings) (limit : Nat) (value : Bool) (p q : Path) : Bool :=
  (p.bucket .transform).isEmpty && (q.bucket .transform).isEmpty &&
    (ControlFlow.compare (.ofPath p) (.ofPath q)).verdict == .equivalent &&
    (Memory.compare s.policy s.thresholds (.ofPath p) (.ofPath q)).verdict == .unknown &&
    !p.output.differs q.output && Sampling.bitsDecide limit value p q

/-- A pair that samples decide gets their verdict, and it is final. -/
theorem judge_of_samplesDecide {s : Settings} {rng : Sampling.Generator} {limit : Nat}
    {value : Bool} {p q : Path}
    (horacle : s.oracle = some (Sampling.oracle rng limit))
    (h : samplesDecide s limit value p q = true) :
    (judge s inTime (.ofPath p) (.ofPath q)).isFinal = true ∧
      (judge s inTime (.ofPath p) (.ofPath q)).outcome.isSome ∧
      (judge s inTime (.ofPath p) (.ofPath q)).verdict.verdict
        = if value then .equivalent else .notEquivalent := by
  simp only [samplesDecide, Bool.and_eq_true, List.isEmpty_iff, beq_iff_eq, Bool.not_eq_true'] at h
  obtain ⟨⟨⟨⟨⟨hp, hq⟩, hcontrol⟩, hmemory⟩, houtput⟩, hanswer⟩ := h
  have hnone {r : Path} (hr : r.bucket .transform = []) :
      (Profile.ofPath r).transformations = [] := by
    simp [Profile.ofPath, Path.transformations, Transformation.ofConstraints, hr]
  refine judge_sampled ?_ houtput horacle (Sampling.decide_of_bitsDecide hanswer)
  exact structural_of_layers hcontrol hmemory (Transform.verdict_of_nil (hnone hp) (hnone hq))

/-- Default settings with samples and a cache of one entry. -/
def sampledSettings : Settings where
  policy := .relative
  thresholds := .default
  weights := .default
  ignoreOutputs := false
  timeout := ⟨1000000000⟩
  oracle := some (Sampling.oracle .congruential Sampling.defaultLimit)
  cacheSize := some 1
  sorter := .stable

/-- An array of two bits. -/
def bitArray : Variable :=
  ⟨"m", 1, .array 1⟩

/-- The lower and the higher element of the array. -/
def bitAt : Bool → Location
  | false => ⟨"m[(_ bv0 1)]", "", 0, -1, 0, 1⟩
  | true => ⟨"m[(_ bv1 1)]", "", 1, -1, 0, 1⟩

/-- Reading an element. -/
def readBit (i : Bool) : Term :=
  .apply (.access .read (bitAt i)) [.array bitArray, .literal i.toNat 1] 1

/-- A path that asserts equations and has touched the given elements. -/
def bitPath (name : String) (touched : List Bool) (equations : List (Term × Term)) : Path :=
  .ofTerms name [bitArray] (touched.map bitAt)
    (equations.map fun e => .apply (.op .eq []) [e.1, e.2] 0)

/-- Two paths with the same content, of which samples say that one is equivalent to a third and that
the other is not. The second reads the first element of the array in a definition that it does not
use. So the element that its constraint reads is no longer the lowest that it touches, and it is
paired with another element of the third. -/
theorem exists_sampled_apart :
    ∃ p p' q,
      Path.parse "(declare-const m (Array (_ BitVec 1) (_ BitVec 1)))
        (assert (= (select m #b1) #b0))" "p" = .ok p ∧
      Path.parse "(declare-const m (Array (_ BitVec 1) (_ BitVec 1)))
        (assert (let ((u (select m #b0))) (= (select m #b1) #b0)))" "p" = .ok p' ∧
      Path.parse "(declare-const m (Array (_ BitVec 1) (_ BitVec 1)))
        (assert (= (select m #b0) #b0)) (assert (= (select m #b1) (select m #b1)))" "q" = .ok q ∧
      p.Unbroken ∧ q.Unbroken ∧ p.content = p'.content ∧
      samplesDecide sampledSettings Sampling.defaultLimit true p q = true ∧
      samplesDecide sampledSettings Sampling.defaultLimit false p' q = true :=
  ⟨bitPath "p" [true] [(readBit true, .literal 0 1)],
    bitPath "p" [false, true] [(readBit true, .literal 0 1)],
    bitPath "q" [false, true] [(readBit false, .literal 0 1), (readBit true, readBit true)],
    Path.parse_eq_ok (by decide +kernel), Path.parse_eq_ok (by decide +kernel),
    Path.parse_eq_ok (by decide +kernel), by decide +kernel, by decide +kernel,
    Path.content_congr rfl rfl rfl, by decide +kernel, by decide +kernel⟩

/-! ### When the cache is seen -/

/-- A session answers comparisons of paths, whatever bounded map it has for a cache and whatever its
size, as one without a cache does, if its cache can identify the paths on each side. -/
theorem cache_transparent (M : VerdictMap) {s : Settings} {rng : Sampling.Generator}
    {strategy : String} {maxSamples : Int}
    (hstrategy : Oracle.ofStrategy rng strategy maxSamples = .ok s.oracle) (turn : Turn)
    (calls : List (Path × Path))
    (hA : Path.Identified s (calls.map (·.1))) (hB : Path.Identified s (calls.map (·.2))) :
    transcript s turn (calls.map fun c => (.ofPath c.1, .ofPath c.2)) (start M s)
      = calls.map fun c =>
        (compare s.uncached turn (.ofPath c.1) (.ofPath c.2) (start M s.uncached)).1 := by
  rw [transcript_eq]
  · simp only [compare_uncached, List.map_map, Function.comp_def]
  · simp only [List.mem_map]
    rintro _ ⟨c, hc, rfl⟩ _ ⟨d, hd, rfl⟩ hdigestA hdigestB
    have hc1 : c.1 ∈ calls.map (·.1) := List.mem_map_of_mem hc
    have hc2 : c.2 ∈ calls.map (·.2) := List.mem_map_of_mem hc
    have hd1 : d.1 ∈ calls.map (·.1) := List.mem_map_of_mem hd
    have hd2 : d.2 ∈ calls.map (·.2) := List.mem_map_of_mem hd
    have halikeA := hA.alike hc1 hd1 hdigestA
    have halikeB := hB.alike hc2 hd2 hdigestB
    refine judge_congr halikeA halikeB fun o ho => ?_
    have hsome : s.oracle.isSome := by rw [ho]; rfl
    obtain ⟨limit, rfl⟩ := Oracle.eq_sampling_of_strategy (ho ▸ hstrategy)
    exact Sampling.answer_congr halikeA halikeB (hA.sampledAlike hsome hc1 hd1 hdigestA)
      (hB.sampledAlike hsome hc2 hd2 hdigestB) rng limit turn.ctx

/-- Two paths that only samples find to be equivalent, compared twice. -/
theorem cache_transparent_repeated :
    ∃ p q : Path, p.Accepted ∧ q.Accepted ∧
      Path.Identified sampledSettings [p, p] ∧ Path.Identified sampledSettings [q, q] ∧
      (judge sampledSettings inTime (.ofPath p) (.ofPath q)).outcome.isSome ∧
      transcript sampledSettings inTime [(.ofPath p, .ofPath q), (.ofPath p, .ofPath q)]
          (start recent sampledSettings)
        = let v := (compare sampledSettings.uncached inTime (.ofPath p) (.ofPath q)
            (start recent sampledSettings.uncached)).1
          [v, v] := by
  obtain ⟨p, -, q, hp, -, hq, hup, huq, -, hyes, -⟩ := exists_sampled_apart
  obtain ⟨-, hasked, -⟩ := judge_of_samplesDecide rfl hyes
  have hsame {r : Path} (hr : r.Unbroken) : Path.Identified sampledSettings [r, r] := by
    refine ⟨?_, ?_, ?_⟩ <;> simp only [List.mem_cons, List.not_mem_nil, or_false, or_self]
    · rintro _ rfl
      exact hr
    · rintro _ rfl _ rfl -
      rfl
    · rintro - _ rfl _ rfl -
      exact ⟨rfl, rfl, rfl⟩
  have hstrategy : Oracle.ofStrategy .congruential "sampling" 0 = .ok sampledSettings.oracle := rfl
  exact ⟨p, q, .of_parse hp, .of_parse hq, hsame hup, hsame huq, hasked,
    cache_transparent recent hstrategy inTime [(p, q), (p, q)] (hsame hup) (hsame huq)⟩

/-- With a cache, the second of two such paths gets the verdict on the first. -/
theorem cache_not_transparent :
    ∃ (s : Settings) (p p' q : Path), s.cacheSize = some 1 ∧
      s.oracle = some (Sampling.oracle .congruential Sampling.defaultLimit) ∧
      p.Accepted ∧ p'.Accepted ∧ q.Accepted ∧ p.content = p'.content ∧
      (transcript s inTime [(.ofPath p, .ofPath q), (.ofPath p', .ofPath q)]
        (start recent s)).map (·.verdict) = [.equivalent, .equivalent] ∧
      (compare s.uncached inTime (.ofPath p') (.ofPath q) (start recent s.uncached)).1.verdict
        = .notEquivalent := by
  obtain ⟨p, p', q, hp, hp', hq, -, -, hcontent, hyes, hno⟩ := exists_sampled_apart
  obtain ⟨hfinal, -, hequivalent⟩ := judge_of_samplesDecide rfl hyes
  obtain ⟨-, -, hdifferent⟩ := judge_of_samplesDecide rfl hno
  refine ⟨sampledSettings, p, p', q, rfl, rfl, .of_parse hp, .of_parse hp', .of_parse hq, hcontent,
    ?_, ?_⟩
  · rw [transcript_again rfl (Path.fingerprint_congr hcontent) rfl hfinal]
    simp only [List.map_cons, List.map_nil, hequivalent, if_true]
  · rw [compare_uncached, hdifferent]
    rfl

end Session

end Pathwise
