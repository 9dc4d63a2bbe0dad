import Pathwise.Proofs.Path.WellFormed
import Pathwise.Proofs.Profile.Access
import Pathwise.Proofs.Term.Relocation

/-!
# Layers and what is read off them

Walks over a term treat the index of an array access differently. The one that finds the layers of
a constraint passes over indices, and so does the one that finds its transformations. The one that
finds its memory accesses enters them, and so does the search for unknown operators.

* **Occurrences** (`Term.OccursIn`, `Term.mem_parts_iff`): being somewhere in a term, by its
  arguments only. The subterms that are listed are those that occur.
* **Memory** (`Term.exists_dataTerms_touchesMemory`): an index belongs to an access, so memory that
  is touched inside an index is touched outside of one as well. The memory layer is found although
  indices are passed over.
* **Buckets** (`Term.touches_eq_nil`, `Transformation.ofTerm_eq_nil_iff`): a constraint outside the
  memory layer makes no access, and one is in the transform layer just if it makes a transformation.

So buckets and what is read off them agree (`Path.buckets_agree`).
-/

namespace Pathwise

namespace Term

/-! ### Occurrences -/

/-- A term occurs in another one: it is that one, or it occurs in an argument, be it an index. -/
inductive OccursIn (u : Term) : Term → Prop
  | here : OccursIn u u
  | inside {h : Head} {args : List Term} {w : Nat} {t : Term} (ht : t ∈ args) (hu : OccursIn u t) :
      OccursIn u (apply h args w)

/-- What occurs in a term is a part of it. -/
theorem mem_parts_of_occursIn {t u : Term} (h : u.OccursIn t) : u ∈ t.parts := by
  induction h with
  | here => exact mem_parts_self u
  | inside ht _ ih => exact mem_parts_apply ht ih

/-- The parts of a term occur in it. -/
theorem occursIn_of_mem_parts (t : Term) : ∀ u ∈ t.parts, u.OccursIn t := by
  intro u hu
  exact parts_induction .here (fun h args w t ht ih => .inside ht ih) hu

/-- The subterms of a term are the terms that occur in it. -/
theorem mem_parts_iff {t u : Term} : u ∈ t.parts ↔ u.OccursIn t :=
  ⟨occursIn_of_mem_parts t u, mem_parts_of_occursIn⟩

/-- A term has an unknown operator if one occurs in it. -/
theorem hasUnknown_iff {t : Term} :
    t.hasUnknown = true ↔ ∃ u : Term, u.OccursIn t ∧ u.isUnknown = true := by
  have hparts : t.hasUnknown = t.parts.any isUnknown := by
    rw [hasUnknown, parts, List.any_map]
    rfl
  rw [hparts, List.any_eq_true]
  simp only [mem_parts_iff]

/-! ### Memory -/

/-- A term is among its data. -/
theorem mem_dataTerms_self (t : Term) : t ∈ t.dataTerms := by
  cases t <;> simp [dataTerms, dataOccurrences]

/-- Memory that is touched anywhere in a term is touched outside the indices of accesses: an index
is an argument of something that touches memory itself. -/
theorem exists_dataTerms_touchesMemory {t u : Term} (h : u.OccursIn t)
    (hu : u.touchesMemory = true) : ∃ v ∈ t.dataTerms, v.touchesMemory = true := by
  induction h with
  | here => exact ⟨u, mem_dataTerms_self u, hu⟩
  | @inside h args w t ht _ ih =>
      by_cases hmemory : h.opIs Op.isMemory = true
      · exact ⟨apply h args w, mem_dataTerms_self _, hmemory⟩
      · obtain ⟨v, hv, htouch⟩ := ih
        refine ⟨v, ?_, htouch⟩
        rw [dataTerms_apply (Bool.eq_false_iff.mpr hmemory)]
        exact List.mem_cons_of_mem _ (List.mem_flatMap.mpr ⟨t, ht, hv⟩)

/-- A term belongs to the memory if something in it touches memory. -/
theorem layers_memory_of_occursIn {t u : Term} (h : u.OccursIn t) (hu : u.touchesMemory = true) :
    t.layers.memory = true :=
  List.any_eq_true.mpr (exists_dataTerms_touchesMemory h hu)

/-- What makes an access touches memory. -/
theorem touchesMemory_of_touch? {u : Term} {a : Touch} (h : u.touch? = some a) :
    u.touchesMemory = true := by
  unfold touch? at h
  split at h
  · rfl
  · rename_i kind l args w
    show (Head.access kind l).opIs Op.isMemory = true
    cases kind <;> rfl
  · cases h

/-- Every access is made by something that occurs in the term. -/
theorem exists_occursIn_of_mem_accessed {t : Term} {a : Touch} (h : a ∈ t.accessed) :
    ∃ u : Term, u.OccursIn t ∧ u.touchesMemory = true := by
  rw [accessed_eq] at h
  obtain ⟨u, hu, ha⟩ := List.mem_filterMap.mp h
  exact ⟨u, mem_parts_iff.mp hu, touchesMemory_of_touch? ha⟩

/-- A constraint outside the memory layer makes no access, inside an index or anywhere else. -/
theorem touches_eq_nil {t : Term} (h : t.layers.memory = false) : t.touches = [] := by
  have hnone : ∀ u : Term, u.OccursIn t → u.touchesMemory = true → False := by
    intro u hu htouch
    rw [layers_memory_of_occursIn hu htouch] at h
    exact Bool.noConfusion h
  by_cases hwrites : t.Writes
  · obtain ⟨is, v, l, ts, w, rfl⟩ := hwrites
    exact (hnone (cell v l) (.inside List.mem_cons_self .here) rfl).elim
  · rw [touches_of_not_writes hwrites, List.eq_nil_iff_forall_not_mem]
    intro a ha
    obtain ⟨u, hu, htouch⟩ := exists_occursIn_of_mem_accessed ha
    exact hnone u hu htouch

end Term

/-! ### Transformations -/

/-- A term makes no transformation just if it transforms no data. -/
theorem Transformation.ofTerm?_eq_none_iff {u : Term} :
    ofTerm? u = none ↔ u.transformsData = false := by
  cases u with
  | apply h args w =>
      cases h with
      | access kind l => cases kind <;> simp [ofTerm?, Term.transformsData] <;> rfl
      | _ => simp [ofTerm?, Term.transformsData, Head.opIs, Head.op?]
  | _ => simp [ofTerm?, Term.transformsData]

/-- A term belongs to the transform layer just if there are transformations in it. -/
theorem Transformation.ofTerm_eq_nil_iff {t : Term} :
    ofTerm t = [] ↔ t.layers.transform = false := by
  show t.dataTerms.filterMap ofTerm? = [] ↔ t.dataTerms.any Term.transformsData = false
  rw [List.filterMap_eq_nil_iff, List.any_eq_false]
  simp only [ofTerm?_eq_none_iff, Bool.not_eq_true]

/-! ### Buckets -/

/-- What the members of a list yield, if those that are left out yield nothing. -/
theorem flatMap_filter_of_nil {α β : Type} {f : α → List β} {keep : α → Bool} (xs : List α)
    (h : ∀ x ∈ xs, keep x = false → f x = []) : (xs.filter keep).flatMap f = xs.flatMap f := by
  induction xs with
  | nil => rfl
  | cons x xs ih =>
      have hrest := ih fun y hy => h y (List.mem_cons_of_mem _ hy)
      by_cases hx : keep x = true
      · rw [List.filter_cons_of_pos hx, List.flatMap_cons, List.flatMap_cons, hrest]
      · rw [List.filter_cons_of_neg hx, List.flatMap_cons, hrest,
          h x List.mem_cons_self (Bool.eq_false_iff.mpr hx), List.nil_append]

namespace Path

/-- A bucket holds the constraints that belong to its layer. -/
theorem mem_bucket {p : Path} {l : Layer} {c : Constraint} :
    c ∈ p.bucket l ↔ c ∈ p.constraints ∧ c.term.layers.get l = true := by
  rw [bucket, List.mem_filter]

/-- Accesses are read off the memory bucket, and all other constraints make none. -/
theorem accesses_eq (p : Path) :
    Access.ofConstraints (p.bucket .memory) = Access.ofConstraints p.constraints := by
  unfold Access.ofConstraints bucket
  rw [flatMap_filter_of_nil]
  intro c _ hc
  rw [Term.touches_eq_nil hc]
  rfl

/-- Transformations are read off the transform bucket, and all other constraints make none. -/
theorem transformations_eq (p : Path) :
    Transformation.ofConstraints (p.bucket .transform) =
      Transformation.ofConstraints p.constraints := by
  unfold Transformation.ofConstraints bucket
  rw [flatMap_filter_of_nil]
  intro c _ hc
  exact Transformation.ofTerm_eq_nil_iff.mpr hc

/-- The constraints of a path are told apart by their indices. -/
theorem WellFormed.eq_of_index_eq {p : Path} (hp : p.WellFormed) {c d : Constraint}
    (hc : c ∈ p.constraints) (hd : d ∈ p.constraints) (h : c.index = d.index) : c = d := by
  have hnodup : (p.constraints.map (·.index)).Nodup := by
    rw [hp.indices]
    exact List.nodup_range
  exact List.inj_on_of_nodup_map hnodup hc hd h

/-- A constraint is noted as unclassified just if it has an unknown operator. -/
theorem mem_unclassified {p : Path} (hp : p.WellFormed) {c : Constraint} (hc : c ∈ p.constraints) :
    c.index ∈ p.unclassified ↔ c.term.hasUnknown = true := by
  unfold unclassified
  rw [List.mem_map]
  constructor
  · rintro ⟨d, hd, hindex⟩
    obtain ⟨hd, hunknown⟩ := List.mem_filter.mp hd
    rwa [hp.eq_of_index_eq hd hc hindex] at hunknown
  · intro hunknown
    exact ⟨c, List.mem_filter.mpr ⟨hc, hunknown⟩, rfl⟩

/-- Each constraint is in a bucket. -/
theorem exists_bucket {p : Path} {c : Constraint} (hc : c ∈ p.constraints) :
    ∃ l, c ∈ p.bucket l := by
  by_cases hmemory : c.term.layers.memory = true
  · exact ⟨.memory, mem_bucket.mpr ⟨hc, hmemory⟩⟩
  by_cases htransform : c.term.layers.transform = true
  · exact ⟨.transform, mem_bucket.mpr ⟨hc, htransform⟩⟩
  have hcontrol : c.term.layers.controlFlow = true := by
    show (!c.term.layers.memory && !c.term.layers.transform) = true
    rw [Bool.eq_false_iff.mpr hmemory, Bool.eq_false_iff.mpr htransform]
    rfl
  exact ⟨.controlFlow, mem_bucket.mpr ⟨hc, hcontrol⟩⟩

/-- A constraint is in the control flow just if it is in no other bucket. -/
theorem mem_bucket_controlFlow {p : Path} {c : Constraint} (hc : c ∈ p.constraints) :
    c ∈ p.bucket .controlFlow ↔ c ∉ p.bucket .memory ∧ c ∉ p.bucket .transform := by
  have hcontrol : c.term.layers.controlFlow =
      (!c.term.layers.memory && !c.term.layers.transform) := rfl
  simp [mem_bucket, hc, Layered.get, hcontrol]

/-- What a single constraint makes is what its term makes, sorted. -/
theorem ofConstraints_singleton_perm (c : Constraint) :
    (Transformation.ofConstraints [c]).Perm (Transformation.ofTerm c.term) := by
  unfold Transformation.ofConstraints
  rw [List.flatMap_singleton]
  exact List.mergeSort_perm _ _

/-- The transform bucket has the constraints that make a transformation. -/
theorem mem_bucket_transform {p : Path} {c : Constraint} (hc : c ∈ p.constraints) :
    c ∈ p.bucket .transform ↔ Transformation.ofConstraints [c] ≠ [] := by
  have hnil : Transformation.ofConstraints [c] = [] ↔ Transformation.ofTerm c.term = [] := by
    rw [← List.length_eq_zero_iff, (ofConstraints_singleton_perm c).length_eq,
      List.length_eq_zero_iff]
  rw [mem_bucket, Ne, hnil, Transformation.ofTerm_eq_nil_iff, Bool.not_eq_false]
  exact and_iff_right hc

/-- The buckets of a path agree with what is read off it. Each constraint is in a bucket, and in the
control flow just if in no other; it is in the transform bucket just if it makes a transformation,
and what it makes is what its term does. Reading accesses or transformations off their bucket gives
what reading them off all constraints would. A constraint is noted as unclassified just if an
unknown operator occurs in it, in an index or elsewhere. -/
theorem buckets_agree {p : Path} (hp : p.Accepted) :
    (∀ c ∈ p.constraints,
      (∃ l, c ∈ p.bucket l) ∧
      (c ∈ p.bucket .controlFlow ↔ c ∉ p.bucket .memory ∧ c ∉ p.bucket .transform) ∧
      (c ∈ p.bucket .transform ↔ Transformation.ofConstraints [c] ≠ []) ∧
      (Transformation.ofConstraints [c]).Perm (Transformation.ofTerm c.term) ∧
      (c.index ∈ p.unclassified ↔ ∃ u : Term, u.OccursIn c.term ∧ u.isUnknown = true)) ∧
    Access.ofConstraints (p.bucket .memory) = Access.ofConstraints p.constraints ∧
    Transformation.ofConstraints (p.bucket .transform) =
      Transformation.ofConstraints p.constraints := by
  refine ⟨?_, accesses_eq p, transformations_eq p⟩
  intro c hc
  have hunknown := (mem_unclassified hp.wellFormed hc).trans Term.hasUnknown_iff
  exact ⟨exists_bucket hc, mem_bucket_controlFlow hc, mem_bucket_transform hc,
    ofConstraints_singleton_perm c, hunknown⟩

/-- An access in the index of another, an unknown operator in its own index, and arithmetic inside
and outside of indices. -/
theorem buckets_agree_nested :
    let src := "(declare-const m (Array (_ BitVec 2) (_ BitVec 2)))(declare-const x (_ BitVec 2))
(assert (= (select m (bvadd x (select m (f x)))) x))
(assert (= (bvmul x #b11) x))(assert (= x #b10))"
    ∃ p, parse src "p" = .ok p ∧
      Layer.all.map (fun l => (p.bucket l).map (·.index)) = [[2], [0], [1]] ∧
      (∃ c ∈ p.bucket .memory, Transformation.ofConstraints [c] = [] ∧
        ∃ u : Term, u.OccursIn c.term ∧ u.isUnknown = true) ∧
      (Access.ofConstraints p.constraints).length = 2 ∧
      Access.ofConstraints (p.bucket .memory) = Access.ofConstraints p.constraints := by
  intro src
  have hfacts : (parse src "p").toOption.any (fun p =>
      Layer.all.map (fun l => (p.bucket l).map (·.index)) == [[2], [0], [1]] &&
      p.unclassified == [0] && p.accesses.length == 2) = true := by
    decide +kernel
  obtain ⟨p, hp, hfacts⟩ := exists_of_parse hfacts
  simp only [Bool.and_eq_true, beq_iff_eq] at hfacts
  obtain ⟨⟨hbuckets, hunclassified⟩, haccesses⟩ := hfacts
  obtain ⟨hlayers, hsame, -⟩ := buckets_agree (.of_parse hp)
  have hindices : (p.bucket .memory).map (·.index) = [0] ∧
      (p.bucket .transform).map (·.index) = [1] := by
    simp only [Layer.all, List.map_cons, List.cons.injEq] at hbuckets
    exact ⟨hbuckets.2.1, hbuckets.2.2.1⟩
  obtain ⟨c, hc, hindex⟩ : ∃ c ∈ p.bucket .memory, c.index = 0 := by
    have hmem : 0 ∈ (p.bucket .memory).map (·.index) := by simp [hindices.1]
    exact List.mem_map.mp hmem
  obtain ⟨-, -, htransform, -, hunknown⟩ := hlayers c (mem_bucket.mp hc).1
  have houtside : c ∉ p.bucket .transform := by
    intro hmem
    have hone : c.index ∈ (p.bucket .transform).map (·.index) := List.mem_map.mpr ⟨c, hmem, rfl⟩
    simp [hindices.2, hindex] at hone
  refine ⟨p, hp, hbuckets, ⟨c, hc, ?_, ?_⟩, ?_, hsame⟩
  · exact not_not.mp (mt htransform.mpr houtside)
  · exact hunknown.mp (by simp [hunclassified, hindex])
  · rw [← hsame]
    exact haccesses

end Path

end Pathwise
