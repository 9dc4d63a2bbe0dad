import Pathwise.Proofs.Session.Run

/-!
# No false equivalence

When a session calls two paths equivalent, each layer stands behind it, or memory alone is open and
an oracle has said yes. When a layer finds a difference, nothing can overrule it.

* **Layers** (`Aggregate.overall_eq_equivalent_iff`, `Session.structural_layers`): the verdict of
  the layers, in terms of the verdict of each. Only memory can leave it open.
* **Judging** (`Session.judge_equivalent`, `Session.judge_notEquivalent`, `Session.judge_outputs`):
  what stands behind a verdict that is found anew, after the outputs and the oracle had their say.
* **Runs** (`Session.no_false_equivalence`): the same of every answer in every run, since each
  answer goes back to a call at which it was found.
-/

namespace Pathwise

/-! ### Layers -/

/-- The list of layers has one member for each layer. -/
theorem Layered.mem_toList_iff {α : Type} {x : Layered α} {y : α} :
    y ∈ x.toList ↔ ∃ l, x.get l = y := by
  simp only [toList, List.mem_cons, List.not_mem_nil, or_false]
  constructor
  · rintro (rfl | rfl | rfl)
    exacts [⟨.controlFlow, rfl⟩, ⟨.memory, rfl⟩, ⟨.transform, rfl⟩]
  · rintro ⟨_ | _ | _, rfl⟩
    exacts [.inl rfl, .inr (.inl rfl), .inr (.inr rfl)]

namespace Aggregate

/-- Paths differ overall just if they do in some layer. -/
theorem overall_eq_notEquivalent_iff {layers : Layered LayerResult} :
    overall layers = .notEquivalent ↔ ∃ l, (layers.get l).verdict = .notEquivalent := by
  have hany : layers.toList.any (·.verdict == .notEquivalent) = true ↔
      ∃ l, (layers.get l).verdict = .notEquivalent := by
    simp [List.any_eq_true, Layered.mem_toList_iff]
  rw [← hany]
  unfold overall
  split
  · simp [*]
  · split <;> simp [*]

/-- Paths are equivalent overall just if they are in all layers. -/
theorem overall_eq_equivalent_iff {layers : Layered LayerResult} :
    overall layers = .equivalent ↔ ∀ l, (layers.get l).verdict = .equivalent := by
  have hall : layers.toList.all (·.verdict == .equivalent) = true ↔
      ∀ l, (layers.get l).verdict = .equivalent := by
    simp [List.all_eq_true, Layered.mem_toList_iff]
  rw [← hall]
  unfold overall
  split
  · rename_i hany
    obtain ⟨r, hr, hdiffers⟩ := List.any_eq_true.mp hany
    have hmixed : ¬ layers.toList.all (·.verdict == .equivalent) = true := by
      intro h
      have hagrees := List.all_eq_true.mp h r hr
      simp only [beq_iff_eq] at hdiffers hagrees
      cases hdiffers.symm.trans hagrees
    simp [hmixed]
  · split <;> simp [*]

end Aggregate

/-- Control flow is never left open. -/
theorem ControlFlow.verdict_ne_unknown (a b : Profile) :
    (ControlFlow.compare a b).verdict ≠ .unknown := by
  unfold ControlFlow.compare
  simp only
  split
  · exact Verdict.noConfusion
  · split <;> exact Verdict.noConfusion

/-- Transformations are never left open. -/
theorem Transform.verdict_ne_unknown (a b : Profile) :
    (Transform.compare a b).verdict ≠ .unknown := by
  unfold Transform.compare
  simp only
  split <;> exact Verdict.noConfusion

/-- Outputs differ if both were recorded and they are not the same. -/
theorem Observed.differs_iff {x y : Observed} :
    x.differs y = true ↔ x ≠ .none ∧ y ≠ .none ∧ x ≠ y := by
  cases x <;> cases y <;> simp [differs, isNone]

namespace Session

variable {s : Settings} {turn : Turn} {a b : Profile}

/-- The verdict of the layers is their overall verdict. -/
theorem structural_verdict (s : Settings) (a b : Profile) :
    (structural s a b).verdict = Aggregate.overall (structural s a b).layers := rfl

/-- Only memory can leave the verdict of the layers open. -/
theorem structural_layers (s : Settings) (a b : Profile) :
    (structural s a b).layers.controlFlow.verdict ≠ .unknown ∧
      (structural s a b).layers.transform.verdict ≠ .unknown :=
  ⟨ControlFlow.verdict_ne_unknown a b, Transform.verdict_ne_unknown a b⟩

/-- If the layers leave the verdict open, they agree in all but memory, which is open. -/
theorem layers_of_structural_unknown (h : (structural s a b).verdict = .unknown) :
    (structural s a b).layers.controlFlow.verdict = .equivalent ∧
      (structural s a b).layers.memory.verdict = .unknown ∧
      (structural s a b).layers.transform.verdict = .equivalent := by
  obtain ⟨hcontrol, htransform⟩ := structural_layers s a b
  rw [structural_verdict] at h
  generalize (structural s a b).layers = layers at *
  have hdiffers : ∀ l, (layers.get l).verdict ≠ .notEquivalent := by
    intro l hl
    rw [Aggregate.overall_eq_notEquivalent_iff.mpr ⟨l, hl⟩] at h
    cases h
  have hcontrol' : layers.controlFlow.verdict = .equivalent := by
    have := hdiffers .controlFlow
    revert this hcontrol
    simp only [Layered.get]
    cases layers.controlFlow.verdict <;> simp
  have htransform' : layers.transform.verdict = .equivalent := by
    have := hdiffers .transform
    revert this htransform
    simp only [Layered.get]
    cases layers.transform.verdict <;> simp
  refine ⟨hcontrol', ?_, htransform'⟩
  cases hmemory : layers.memory.verdict with
  | unknown => rfl
  | notEquivalent => exact absurd hmemory (hdiffers .memory)
  | equivalent =>
      -- then all layers would agree
      have hall : ∀ l, (layers.get l).verdict = .equivalent := by
        rintro (_ | _ | _)
        exacts [hcontrol', hmemory, htransform']
      rw [Aggregate.overall_eq_equivalent_iff.mpr hall] at h
      cases h

/-! ### Judging -/

/-- What judging can come to: the outputs differ, the oracle is asked, or the layers decide. -/
theorem judge_cases (s : Settings) (turn : Turn) (a b : Profile) :
    let v := structural s a b
    let differ := s.ignoreOutputs = false ∧ a.path.output.differs b.path.output = true
    (differ ∧ judge s turn a b = ⟨withOutputs a b v, true, none⟩) ∨
      (¬ differ ∧ v.verdict = .unknown ∧ ∃ o, s.oracle = some o ∧
        let outcome := consult o turn a b
        judge s turn a b
          = ⟨withOutcome s o.name v outcome, outcome.isFinal, some (o.name, outcome)⟩) ∨
      (¬ differ ∧ (v.verdict = .unknown → s.oracle = none) ∧
        judge s turn a b = ⟨v, true, none⟩) := by
  intro v differ
  by_cases hdiffer : differ
  · refine .inl ⟨hdiffer, ?_⟩
    simp [judge, hdiffer.1, hdiffer.2, v]
  · have hguard : (!s.ignoreOutputs && a.path.output.differs b.path.output) = false := by
      simpa [differ] using hdiffer
    by_cases hunknown : v.verdict = .unknown
    · cases horacle : s.oracle with
      | none => exact .inr (.inr ⟨hdiffer, fun _ => rfl, by simp [judge, hguard, horacle, v]⟩)
      | some o =>
          refine .inr (.inl ⟨hdiffer, hunknown, o, rfl, ?_⟩)
          simp only [v] at hunknown
          simp [judge, hguard, horacle, hunknown, v]
    · refine .inr (.inr ⟨hdiffer, fun h => absurd h hunknown, ?_⟩)
      simp only [judge, hguard, Bool.false_eq_true, if_false]
      split
      · rename_i h _
        exact absurd h hunknown
      · rfl

/-- Judging reports the layers as they are. -/
theorem judge_layers (s : Settings) (turn : Turn) (a b : Profile) :
    (judge s turn a b).verdict.layers = (structural s a b).layers := by
  rcases judge_cases s turn a b with ⟨-, h⟩ | ⟨-, -, o, -, h⟩ | ⟨-, -, h⟩
  · rw [h]
    simp only [withOutputs]
    split <;> rfl
  · rw [h]
    rfl
  · rw [h]

/-- What is taken for an answer counts only if the answer was waited for. -/
theorem answer_of_result {ending : Oracle.Ending} {answer : Oracle.Answer} {value : Bool}
    (h : ending.result answer = .ok value) : ending = .answered ∧ answer = .ok value := by
  cases ending with
  | answered => exact ⟨rfl, h⟩
  | deadline => simp [Oracle.Ending.result, Oracle.Answer.failed, Oracle.Answer.ok] at h
  | cancelled => simp [Oracle.Ending.result, Oracle.Answer.failed, Oracle.Answer.ok] at h

/-- An oracle makes an open verdict one of equivalence only by saying so. -/
theorem Outcome.answer_of_settle_equivalent {name : String} {answer : Oracle.Answer} {w : Weights}
    {v : PairVerdict} (hopen : v.verdict = .unknown)
    (h : (settle w v (ofAnswer name answer)).1 = .equivalent) : answer = .ok true := by
  obtain ⟨value, error⟩ := answer
  simp only [ofAnswer] at h
  cases error with
  | some e => cases e <;> simp [settle, hopen] at h
  | none =>
      cases value with
      | true => rfl
      | false => simp [settle] at h

/-- What stands behind equivalence: all layers, or an oracle where memory is open. -/
theorem judge_equivalent (h : (judge s turn a b).verdict.verdict = .equivalent) :
    let layers := (judge s turn a b).verdict.layers
    layers.controlFlow.verdict = .equivalent ∧ layers.transform.verdict = .equivalent ∧
      (layers.memory.verdict = .equivalent ∨
        layers.memory.verdict = .unknown ∧ (judge s turn a b).outcome.isSome ∧
          turn.ending = .answered ∧ ∃ o, s.oracle = some o ∧ o.decide turn.ctx a b = .ok true) := by
  rw [judge_layers]
  rcases judge_cases s turn a b with ⟨-, hjudge⟩ | ⟨-, hunknown, o, ho, hjudge⟩ | ⟨-, -, hjudge⟩
  · rw [hjudge] at h
    simp only [withOutputs] at h
    split at h
    · rename_i hdiffers
      exact absurd (hdiffers.symm.trans h) (by decide)
    · cases h
  · rw [hjudge] at h ⊢
    obtain ⟨hcontrol, hmemory, htransform⟩ := layers_of_structural_unknown hunknown
    obtain ⟨hanswered, hyes⟩ := answer_of_result (Outcome.answer_of_settle_equivalent hunknown h)
    exact ⟨hcontrol, htransform, .inr ⟨hmemory, rfl, hanswered, o, ho, hyes⟩⟩
  · rw [hjudge] at h
    have hall := Aggregate.overall_eq_equivalent_iff.mp ((structural_verdict s a b).symm.trans h)
    exact ⟨hall .controlFlow, hall .transform, .inl (hall .memory)⟩

/-- A layer that finds a difference decides, and no oracle is asked. -/
theorem judge_notEquivalent {l : Layer}
    (h : ((judge s turn a b).verdict.layers.get l).verdict = .notEquivalent) :
    (judge s turn a b).verdict.verdict = .notEquivalent ∧ (judge s turn a b).outcome = none := by
  rw [judge_layers] at h
  have hstructural : (structural s a b).verdict = .notEquivalent :=
    Aggregate.overall_eq_notEquivalent_iff.mpr ⟨l, h⟩
  rcases judge_cases s turn a b with ⟨-, hjudge⟩ | ⟨-, hunknown, -⟩ | ⟨-, -, hjudge⟩
  · rw [hjudge]
    simp [withOutputs, hstructural]
  · cases hstructural.symm.trans hunknown
  · rw [hjudge]
    exact ⟨hstructural, rfl⟩

/-- Outputs that differ rule equivalence out, and no oracle is asked. -/
theorem judge_outputs (hignore : s.ignoreOutputs = false)
    (hdiffer : a.path.output.differs b.path.output = true) :
    (judge s turn a b).verdict.verdict ≠ .equivalent ∧ (judge s turn a b).outcome = none := by
  rcases judge_cases s turn a b with ⟨-, hjudge⟩ | ⟨hsame, -⟩ | ⟨hsame, -⟩
  · rw [hjudge]
    refine ⟨?_, rfl⟩
    simp only [withOutputs]
    split
    · rename_i h
      simp [h]
    · simp
  · exact absurd ⟨hignore, hdiffer⟩ hsame
  · exact absurd ⟨hignore, hdiffer⟩ hsame

/-! ### Runs -/

/-- In every run, under all settings and whatever the oracle says at each call:

* an answer that two paths are equivalent has the control flow and the transformations agree, and
  memory too, or memory is open and the answer was found by a call that asked the oracle and got
  a yes without an error;
* an answer with a difference in some layer is that the paths are not equivalent, and no call that
  gave this answer has asked the oracle;
* without a cache, paths whose outputs are recorded and not equal are not called equivalent, and the
  oracle is not asked, unless outputs are ignored. -/
theorem no_false_equivalence (M : VerdictMap) (s : Settings) (before : List Call) (c : Call) :
    let v := reply M s before c
    (v.verdict = .equivalent →
      v.layers.controlFlow.verdict = .equivalent ∧ v.layers.transform.verdict = .equivalent ∧
        (v.layers.memory.verdict = .equivalent ∨
          v.layers.memory.verdict = .unknown ∧ ∃ first d, first ++ [d] <+: before ++ [c] ∧
            d.key = c.key ∧ reply M s first d = v ∧ d.answer = .ok true ∧
            d.turn.ending = .answered ∧
            (after M s (first ++ [d])).oracleCalls = (after M s first).oracleCalls + 1)) ∧
      ((∃ l, (v.layers.get l).verdict = .notEquivalent) →
        v.verdict = .notEquivalent ∧
          ∀ first d, first ++ [d] <+: before ++ [c] → reply M s first d = v →
            (after M s (first ++ [d])).oracleCalls = (after M s first).oracleCalls) ∧
      (s.cacheSize = none → s.ignoreOutputs = false → c.a.path.output ≠ .none →
        c.b.path.output ≠ .none → c.a.path.output ≠ c.b.path.output →
        v.verdict ≠ .equivalent ∧
          (after M s (before ++ [c])).oracleCalls = (after M s before).oracleCalls) := by
  intro v
  obtain ⟨first, d, horigin, hkey, hv⟩ := exists_origin M s before c
  replace hv : (d.finding s).verdict = v := hv
  refine ⟨fun h => ?_, ?_, fun hoff hignore hA hB hne => ?_⟩
  · rw [← hv] at h ⊢
    obtain ⟨hcontrol, htransform, hmemory⟩ := judge_equivalent h
    refine ⟨hcontrol, htransform, hmemory.imp_right ?_⟩
    rintro ⟨hopen, hasked, hanswered, o, ho, hyes⟩
    obtain ⟨hreply, hcalls⟩ := horigin.reply_eq
    have hanswer : d.answer = .ok true := by
      obtain ⟨o', -, rfl⟩ := Option.map_eq_some_iff.mp ho
      exact hyes
    refine ⟨hopen, first, d, horigin.isPrefix, hkey, hreply, hanswer, hanswered, ?_⟩
    have hasked' : (d.finding s).outcome.isSome := hasked
    rw [hcalls, if_pos hasked']
  · rintro ⟨l, hl⟩
    refine ⟨?_, fun first' d' hwithin hreply' => ?_⟩
    · rw [← hv] at hl ⊢
      exact (judge_notEquivalent hl).1
    · by_cases hmiss : Misses s (after M s first') d'.key
      · obtain ⟨hfound, hcalls⟩ := Origin.reply_eq ⟨hwithin, hmiss⟩
        rw [← hreply', hfound] at hl
        have hasked : (d'.finding s).outcome = none := (judge_notEquivalent hl).2
        simp [hcalls, hasked]
      · exact oracleCalls_of_not_misses hmiss
  · have hown : Origin M s (before ++ [c]) before c := ⟨List.prefix_refl _, .inl hoff⟩
    obtain ⟨hfound, hcalls⟩ := hown.reply_eq
    obtain ⟨hverdict, hasked⟩ : (c.finding s).verdict.verdict ≠ .equivalent ∧
        (c.finding s).outcome = none :=
      judge_outputs hignore (Observed.differs_iff.mpr ⟨hA, hB, hne⟩)
    refine ⟨?_, by simp [hcalls, hasked]⟩
    rw [show v = (c.finding s).verdict from hfound]
    exact hverdict

end Session

end Pathwise
