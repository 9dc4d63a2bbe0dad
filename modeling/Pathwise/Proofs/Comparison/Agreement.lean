import Mathlib.Data.List.Perm.Basic
import Pathwise.Comparison.ControlFlow
import Pathwise.Comparison.Transform
import Pathwise.Proofs.Profile.Access

/-!
# When paths agree in a layer

Control flow and transformations are compared by a search for the first difference. The verdict and
the score say whether there is one, so both are decided by what the paths have, in whichever order
it is searched.

* **Control flow** (`ControlFlow.decides_compare`): the paths have the same domains, input by input.
* **Transformations** (`Transform.decides_compare`): the paths have the same transformations,
  equally often.
-/

namespace Pathwise

namespace LayerResult

/-- A layer speaks for equivalence with full score if something holds, and otherwise against it with
no score. -/
structure Decides (r : LayerResult) (P : Prop) : Prop where
  agree : P → r.verdict = .equivalent ∧ r.score = 1
  differ : ¬ P → r.verdict = .notEquivalent ∧ r.score = 0

/-- Two results have the same verdict and score. -/
structure Same (r r' : LayerResult) : Prop where
  verdict : r.verdict = r'.verdict
  score : r.score = r'.score

variable {r r' : LayerResult} {P P' : Prop}

/-- Results that decide the same question are the same. -/
theorem Decides.same (h : r.Decides P) (h' : r'.Decides P') (hiff : P ↔ P') : r.Same r' := by
  by_cases hP : P
  · obtain ⟨hverdict, hscore⟩ := h.agree hP
    obtain ⟨hverdict', hscore'⟩ := h'.agree (hiff.mp hP)
    exact ⟨hverdict.trans hverdict'.symm, hscore.trans hscore'.symm⟩
  · obtain ⟨hverdict, hscore⟩ := h.differ hP
    obtain ⟨hverdict', hscore'⟩ := h'.differ (mt hiff.mpr hP)
    exact ⟨hverdict.trans hverdict'.symm, hscore.trans hscore'.symm⟩

end LayerResult

/-! ### Control flow -/

@[simp] theorem Path.length_domains (p : Path) : p.domains.length = p.inputs.length := by
  simp [Path.domains, Domain.infer]

namespace ControlFlow

/-- No first difference is found just if all domains are equal. -/
theorem firstDifference?_eq_none_iff {as bs : List (Variable × Domain)}
    (hlength : as.length = bs.length) (place : Nat) :
    firstDifference? place as bs = none ↔ as.map (·.2) = bs.map (·.2) := by
  induction as generalizing bs place with
  | nil =>
      obtain rfl : bs = [] := List.length_eq_zero_iff.mp hlength.symm
      simp [firstDifference?]
  | cons a as ih =>
      cases bs with
      | nil => cases hlength
      | cons b bs =>
          rw [List.map_cons, List.map_cons, List.cons.injEq]
          unfold firstDifference?
          split
          · rename_i heq
            rw [ih (Nat.succ.inj hlength)]
            exact (and_iff_right heq).symm
          · rename_i hne
            simp [hne]

/-- The control flow of two paths agrees if and only if their inputs have the same domains. -/
theorem decides_compare {a b : Profile} (ha : a.domains.length = a.path.inputs.length)
    (hb : b.domains.length = b.path.inputs.length) :
    (compare a b).Decides (a.domains = b.domains) := by
  unfold compare
  by_cases hlength : a.path.inputs.length = b.path.inputs.length
  · have hzip : (a.path.inputs.zip a.domains).length = (b.path.inputs.zip b.domains).length := by
      simp [ha, hb, hlength]
    have hnone := firstDifference?_eq_none_iff hzip 0
    rw [List.map_snd_zip ha.le, List.map_snd_zip hb.le] at hnone
    simp only [hlength, ne_eq, not_true_eq_false, if_false]
    cases hfirst : firstDifference? 0 (a.path.inputs.zip a.domains)
        (b.path.inputs.zip b.domains) with
    | none =>
        have heq := hnone.mp hfirst
        exact ⟨fun _ => ⟨rfl, rfl⟩, fun hne => absurd heq hne⟩
    | some detail =>
        have hne : a.domains ≠ b.domains := by
          intro heq
          cases hfirst.symm.trans (hnone.mpr heq)
        exact ⟨fun heq => absurd heq hne, fun _ => ⟨rfl, rfl⟩⟩
  · simp only [hlength, ne_eq, not_false_eq_true, if_true]
    refine ⟨fun heq => absurd ?_ hlength, fun _ => ⟨rfl, rfl⟩⟩
    rw [← ha, heq, hb]

end ControlFlow

/-! ### Transformations -/

namespace Transform

/-- The transformations that occur are those of either side. -/
theorem mem_occurring {as bs : List Transformation} {t : Transformation} :
    t ∈ occurring as bs ↔ t ∈ as ∨ t ∈ bs := by
  rw [occurring, List.mem_mergeSort, mem_firsts, List.mem_append]

/-- No first difference is found just if both sides have the same transformations equally often. -/
theorem firstDifference?_eq_none_iff {as bs : List Transformation} :
    firstDifference? as bs = none ↔ as.Perm bs := by
  rw [List.perm_iff_count, firstDifference?, List.find?_eq_none]
  constructor
  · intro h t
    by_cases ht : t ∈ occurring as bs
    · simpa using h t ht
    · -- what occurs on neither side occurs equally often
      rw [mem_occurring, not_or] at ht
      rw [List.count_eq_zero_of_not_mem ht.1, List.count_eq_zero_of_not_mem ht.2]
  · intro h t _
    simp [h t]

/-- The transformations of two paths agree if and only if they are the same up to their order. -/
theorem decides_compare (a b : Profile) :
    (compare a b).Decides (a.transformations.Perm b.transformations) := by
  unfold compare
  cases hfirst : firstDifference? a.transformations b.transformations with
  | none =>
      have hperm := firstDifference?_eq_none_iff.mp hfirst
      simp only [hfirst]
      exact ⟨fun _ => ⟨rfl, rfl⟩, fun hne => absurd hperm hne⟩
  | some t =>
      have hne : ¬ a.transformations.Perm b.transformations := by
        intro hperm
        cases hfirst.symm.trans (firstDifference?_eq_none_iff.mpr hperm)
      simp only [hfirst]
      exact ⟨fun hperm => absurd hperm hne, fun _ => ⟨rfl, rfl⟩⟩

end Transform

end Pathwise
