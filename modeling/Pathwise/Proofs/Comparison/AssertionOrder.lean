import Mathlib.Data.List.Sort
import Mathlib.Data.Prod.Lex
import Pathwise.Proofs.Comparison.Agreement
import Pathwise.Proofs.Domain.Permutation
import Pathwise.Proofs.Sorting
import Pathwise.Proofs.Term.Equality
import Pathwise.Proofs.Term.Relocation
import Pathwise.Proofs.Term.Spelling

/-!
# The order of assertions

Two paths that assert the same in different orders agree in their control flow and in their
transformations. The same assertions touch other locations in another order, since epochs count the
accesses before them. So what is compared here are the terms without their locations.

* **Bare terms** (`Term.layers_bare`, `Bound.ofTerm?_bare`, `Transformation.ofTerm_bare`): layers,
  bounds and transformations of a term do not depend on its locations.
* **Sorting** (`Transformation.mergeSort_eq_of_perm`): transformations are sorted by a key that no
  two of them share, so that a sorted list is determined by what it has.
* **Paths** (`Path.domains_eq_of_perm`, `Path.transformations_eq_of_perm`).
-/

namespace Pathwise

/-! ### Bare terms -/

namespace Term

@[simp] theorem opIs_bareHead (f : Op → Bool) (h : Head) : (bareHead h).opIs f = h.opIs f := by
  cases h <;> rfl

/-- Whether a term touches memory does not depend on where. -/
@[simp] theorem touchesMemory_bare (t : Term) : t.bare.touchesMemory = t.touchesMemory := by
  cases t with
  | apply h args w => exact opIs_bareHead _ h
  | _ => rfl

/-- Whether a term transforms data does not depend on where. -/
@[simp] theorem transformsData_bare (t : Term) : t.bare.transformsData = t.transformsData := by
  cases t with
  | apply h args w => exact opIs_bareHead _ h
  | _ => rfl

@[simp] theorem literal?_bare (t : Term) : t.bare.literal? = t.literal? := by
  cases t <;> rfl

/-- The arguments that hold data are found alike in a bare application. -/
theorem map_term_dataArgOccurrences_bare (h : Head) {ts : List Term} (place : Nat)
    (hts : ∀ t ∈ ts, t.bare.dataTerms = t.dataTerms.map bare) :
    (dataArgOccurrences (bareHead h) place (ts.map bare)).map (·.term) =
      ((dataArgOccurrences h place ts).map (·.term)).map bare := by
  induction ts generalizing place with
  | nil => rfl
  | cons t ts ih =>
      obtain ⟨ht, hts⟩ := List.forall_mem_cons.mp hts
      simp only [List.map_cons, dataArgOccurrences, opIs_bareHead, List.map_append, ih _ hts]
      congr 1
      split
      · rfl
      · rw [map_term_dataOccurrences, map_term_dataOccurrences, ht]

/-- The data of a bare term are the bare data of the term. -/
theorem dataTerms_bare (t : Term) : t.bare.dataTerms = t.dataTerms.map bare := by
  induction t using inductionOn with
  | apply h args w ih =>
      rw [bare, bareAll_eq, dataTerms, dataTerms, dataOccurrences, dataOccurrences, List.map_cons,
        List.map_cons, List.map_cons, map_term_dataArgOccurrences_bare h 0 ih, bare, bareAll_eq]
  | _ => rfl

/-- Locations do not decide to which layers a constraint belongs. -/
@[simp] theorem layers_bare (t : Term) : t.bare.layers = t.layers := by
  simp [layers, dataTerms_bare, Function.comp_def]

end Term

namespace Bound

/-- The subject of a bound has no locations in it, so it is bare. -/
theorem Subject.bare_eq {v : Variable} {e : Widening} {t : Term} (h : Subject v e t) :
    t.bare = t := by
  cases h <;> rfl

/-- What is bare the subject of a bound was bare before. -/
theorem Subject.eq_bare {v : Variable} {e : Widening} {t : Term} (h : Subject v e t.bare) :
    t.bare = t := by
  cases t with
  | apply head args w =>
      rw [Term.bare, Term.bareAll_eq] at h ⊢
      have hinput {us : List Term} (hus : us.map Term.bare = [.input v]) : us = [.input v] := by
        obtain ⟨u, rfl, hu⟩ := List.map_eq_singleton_iff.mp hus
        cases u <;> cases hu
        rfl
      cases head with
      | op o is =>
          generalize hus : args.map Term.bare = us at h
          cases h <;> rw [hinput hus] <;> rfl
      | access k l => cases h
      | unknown name is => cases h
  | cell u l => cases h
  | _ => rfl

/-- The subject of a bound is found alike in a bare term. -/
@[simp] theorem subject?_bare (t : Term) : subject? t.bare = subject? t := by
  ext ⟨v, e⟩
  rw [subject?_eq_some_iff, subject?_eq_some_iff]
  constructor
  · intro h
    exact h.eq_bare ▸ h
  · intro h
    exact h.bare_eq.symm ▸ h

/-- A bound that names its subject first is found alike. -/
@[simp] theorem direct?_bare (o : Op) (a b : Term) : direct? o a.bare b.bare = direct? o a b := by
  unfold direct?
  rw [subject?_bare]
  cases b <;> cases subject? a <;> rfl

/-- A bound is found alike in a bare comparison. -/
@[simp] theorem compare?_bare (o : Op) (a b : Term) :
    compare? o a.bare b.bare = compare? o a b := by
  simp [compare?]

/-- Locations do not decide which bound a term is. -/
@[simp] theorem ofTerm?_bare (negated : Bool) (t : Term) :
    ofTerm? negated t.bare = ofTerm? negated t := by
  induction t using Term.inductionOn generalizing negated with
  | apply h args w ih =>
      rw [Term.bare, Term.bareAll_eq]
      cases h with
      | access k l => rfl
      | unknown name is => rfl
      | op o is =>
          by_cases ho : o = .not
          · subst ho
            cases args with
            | nil => rfl
            | cons a as => exact ih a List.mem_cons_self _
          · rcases args with _ | ⟨a, _ | ⟨b, _ | ⟨c, rest⟩⟩⟩
            · simp [Term.bareHead]
            · simp [Term.bareHead, ofTerm?, ho]
            · simp [Term.bareHead, ofTerm?]
            · simp [Term.bareHead, ofTerm?, ho]
  | _ => rfl

end Bound

/-- Different operators have different numbers. -/
theorem Op.number_injective : Function.Injective Op.number := by
  have hfound (o : Op) : (Op.all.find? fun u => u.number == o.number) = some o := by
    cases o <;> rfl
  intro a b h
  have ha := hfound a
  rw [h, hfound b] at ha
  exact (Option.some.inj ha).symm

namespace Transformation

/-- A bare term makes the same transformation. -/
@[simp] theorem ofTerm?_bare (t : Term) : ofTerm? t.bare = ofTerm? t := by
  cases t with
  | apply h args w =>
      rw [Term.bare, Term.bareAll_eq]
      cases h with
      | op o is => simp [Term.bareHead, ofTerm?, List.findSome?_map, Function.comp_def]
      | access k l => rfl
      | unknown name is => rfl
  | _ => rfl

/-- Locations do not decide which transformations a term makes. -/
@[simp] theorem ofTerm_bare (t : Term) : ofTerm t.bare = ofTerm t := by
  simp [ofTerm, Term.dataTerms_bare, List.filterMap_map]

/-! ### Sorting -/

/-- What transformations are sorted by. -/
def key (t : Transformation) : Nat ×ₗ Nat ×ₗ Nat :=
  toLex (t.op.number, toLex (t.arity, t.constantRank))

/-- A transformation is known by its sort key. -/
theorem key_injective : Function.Injective key := by
  rintro ⟨o, n, c⟩ ⟨o', n', c'⟩ h
  simp only [key, EmbeddingLike.apply_eq_iff_eq, Prod.mk.injEq] at h
  obtain ⟨ho, rfl, hc⟩ := h
  obtain rfl := Op.number_injective ho
  cases c <;> cases c' <;> simp_all [constantRank]

/-- The order of transformations is that of their keys. -/
theorem before_iff {a b : Transformation} : before a b = true ↔ a.key < b.key := by
  unfold before key
  rw [Prod.Lex.toLex_lt_toLex, Prod.Lex.toLex_lt_toLex]
  split
  · simp_all
  · split <;> simp_all

/-- The order that sorting uses is the order of the keys, too. -/
theorem not_before_iff (a b : Transformation) : (!before b a) = true ↔ a.key ≤ b.key := by
  rw [Bool.not_eq_true', ← Bool.not_eq_true, before_iff, not_lt]

/-- Sorted transformations have ascending keys. -/
theorem pairwise_key (ts : List Transformation) :
    (ts.mergeSort fun a b => !before b a).Pairwise fun a b => a.key ≤ b.key :=
  pairwise_mergeSort_of_key not_before_iff ts

/-- Sorted transformations are determined by what they are and how often. -/
theorem mergeSort_eq_of_perm {ts us : List Transformation} (h : ts.Perm us) :
    (ts.mergeSort fun a b => !before b a) = us.mergeSort fun a b => !before b a :=
  mergeSort_eq_of_perm_of_key not_before_iff key_injective h

end Transformation

/-! ### Paths -/

namespace Path

/-- What a path asserts, without the locations that it touches. -/
def bareTerms (p : Path) : List Term :=
  p.constraints.map (·.term.bare)

/-- A bucket is known, locations apart, by the bare terms of the path. -/
theorem map_bare_bucket (p : Path) (l : Layer) :
    (p.bucket l).map (·.term.bare) = p.bareTerms.filter (·.layers.get l) := by
  rw [bareTerms, List.filter_map, bucket]
  simp [Function.comp_def]

/-- The bounds of a path are read off its bare terms. -/
theorem bounds_eq_bareTerms (p : Path) :
    p.bounds =
      (p.bareTerms.filter (·.layers.get .controlFlow)).filterMap (Bound.ofTerm? false) := by
  rw [← map_bare_bucket, bounds, List.filterMap_map, List.filterMap_map]
  simp

/-- The transformations of a path are read off its bare terms, and sorted then. -/
theorem transformations_eq_bareTerms (p : Path) :
    p.transformations =
      ((p.bareTerms.filter (·.layers.get .transform)).flatMap Transformation.ofTerm).mergeSort
        fun a b => !Transformation.before b a := by
  rw [← map_bare_bucket, List.flatMap_map]
  simp [transformations, Transformation.ofConstraints]

variable {p q : Path}

/-- Domains do not depend on the order of assertions. -/
theorem domains_eq_of_perm (hp : p.WellFormed) (hdeclared : q.declared = p.declared)
    (h : q.bareTerms.Perm p.bareTerms) : q.domains = p.domains := by
  have hinputs : q.inputs = p.inputs := by rw [inputs, inputs, hdeclared]
  have hbounds : q.bounds.Perm p.bounds := by
    rw [bounds_eq_bareTerms, bounds_eq_bareTerms]
    exact (h.filter _).filterMap _
  rw [domains_eq, domains_eq, hinputs]
  refine List.map_congr_left fun v hv => ?_
  exact Domain.ofBounds_perm (hp.input_width hv).1 hbounds

/-- Transformations do not depend on the order of assertions. -/
theorem transformations_eq_of_perm (h : q.bareTerms.Perm p.bareTerms) :
    q.transformations = p.transformations := by
  rw [transformations_eq_bareTerms, transformations_eq_bareTerms]
  exact Transformation.mergeSort_eq_of_perm ((h.filter _).flatMap_right _)

/-- The order of assertions does not matter to control flow and transformations: a path that asserts
the same in another order has the same domains, input by input, and the same list of
transformations, so that both layers are equivalent. -/
theorem agree_of_perm (hp : p.Accepted) (hdeclared : q.declared = p.declared)
    (h : q.bareTerms.Perm p.bareTerms) :
    q.domains = p.domains ∧ q.transformations = p.transformations ∧
      (ControlFlow.compare (.ofPath p) (.ofPath q)).verdict = .equivalent ∧
        (Transform.compare (.ofPath p) (.ofPath q)).verdict = .equivalent := by
  have hdomains := domains_eq_of_perm hp.wellFormed hdeclared h
  have htransformations := transformations_eq_of_perm h
  refine ⟨hdomains, htransformations, ?_, ?_⟩
  · exact ((ControlFlow.decides_compare p.length_domains q.length_domains).agree hdomains.symm).1
  · have hperm : p.transformations.Perm q.transformations := by rw [htransformations]
    exact ((Transform.decides_compare _ _).agree hperm).1

/-- In the first order, no negative number is left when one is excluded, and the store has another
location than the select before it. In the second one, the number is excluded first, and the select
touches the location of the store. -/
theorem agree_of_perm_reversed :
    let declarations :=
      "(declare-const x (_ BitVec 2))(declare-const m (Array (_ BitVec 2) (_ BitVec 2)))"
    let bound := "(assert (bvsge x #b00))"
    let exclusion := "(assert (distinct ((_ sign_extend 1) x) #b110))"
    let read := "(assert (= (bvnot x) (select m x)))"
    let write := "(assert (= x (select (store m x x) x)))"
    ∃ p q, parse (declarations ++ bound ++ exclusion ++ read ++ write) "" = .ok p ∧
      parse (declarations ++ write ++ read ++ exclusion ++ bound) "" = .ok q ∧
      q.memory.length < p.memory.length ∧ q.declared = p.declared ∧
      q.bareTerms.Perm p.bareTerms ∧ q.domains = p.domains ∧
      q.transformations = p.transformations ∧
      (ControlFlow.compare (.ofPath p) (.ofPath q)).verdict = .equivalent ∧
      (Transform.compare (.ofPath p) (.ofPath q)).verdict = .equivalent := by
  intro declarations bound exclusion read write
  have hfacts : (parse (declarations ++ bound ++ exclusion ++ read ++ write) "").toOption.any
      (fun p =>
        (parse (declarations ++ write ++ read ++ exclusion ++ bound) "").toOption.any fun q =>
          decide (q.memory.length < p.memory.length) && decide (q.declared = p.declared) &&
            decide (q.bareTerms.Perm p.bareTerms)) = true := by
    decide +kernel
  obtain ⟨p, hp, hfacts⟩ := exists_of_parse hfacts
  obtain ⟨q, hq, hfacts⟩ := exists_of_parse hfacts
  simp only [Bool.and_eq_true, decide_eq_true_eq] at hfacts
  obtain ⟨⟨hmemory, hdeclared⟩, hperm⟩ := hfacts
  exact ⟨p, q, hp, hq, hmemory, hdeclared, hperm, agree_of_perm (.of_parse hp) hdeclared hperm⟩

end Path

end Pathwise
