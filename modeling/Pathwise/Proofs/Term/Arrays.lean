import Pathwise.Proofs.Term.Refinement

/-!
# Evaluation of arrays

An array stands for a total function. An assignment has no such functions, only numbers for the
names of elements, and a read that no store answers takes the number of its name. So the number of
an element depends on how its index is written, and the meaning on the value of the index.

* **Reads** (`Term.reads`): the selects of a term, each with the array at the bottom of its stores,
  the indices of these stores, its own index, and its name.
* **Interpretations** (`Interpretation.Follows`): an array has, at the value of the index of a read
  that no store answers, the number that the assignment gives to the name of this read.
* **Evaluation** (`Denotes.computed`): if an interpretation follows an assignment, then terms that
  only access arrays have their meaning as value, and array terms have the elements of theirs.
-/

namespace Pathwise

/-- A read of an element of an array, which is evaluated under a name. -/
structure Read where
  array : Variable
  stores : List Term
  index : Term
  name : String

/-- A read whose index has a value, and which no store answers there: it looks at the array. -/
structure Read.Reaches (r : Read) (env : Assignment) (x : Value) : Prop where
  index : r.index.eval env = .ok x
  missed : ∀ j ∈ r.stores, j.eval env ≠ .ok x

namespace Term

/-- The indices of the stores on an array, the last store first. -/
def storeIndices : Term → List Term
  | apply (.access .write _) [a, i, _] _ => i :: a.storeIndices
  | _ => []

/-- The read that a term is by itself. -/
def read? : Term → Option Read
  | apply (.access .read l) (a :: index :: _) _ =>
    a.arrayOf?.map fun v => ⟨v, a.storeIndices, index, l.name⟩
  | _ => none

/-- A term that is a read accesses an array at its index, under the name of its location. -/
theorem read?_eq_some {t : Term} {r : Read} (h : t.read? = some r) :
    ∃ l a rest w, t = apply (.access .read l) (a :: r.index :: rest) w ∧
      a.arrayOf? = some r.array ∧ r.stores = a.storeIndices ∧ r.name = l.name := by
  unfold read? at h
  split at h
  · obtain ⟨v, hv, rfl⟩ := Option.map_eq_some_iff.mp h
    exact ⟨_, _, _, _, rfl, hv, rfl, rfl⟩
  · cases h

/-- The reads in a term. -/
def reads (t : Term) : List Read :=
  t.parts.filterMap read?

/-- The reads of a term are made by its subterms. -/
theorem mem_reads {t : Term} {r : Read} : r ∈ t.reads ↔ ∃ u ∈ t.parts, u.read? = some r :=
  List.mem_filterMap

/-- The reads in a subterm are reads in the term. -/
theorem reads_subset {t u : Term} (hu : u ∈ t.parts) : u.reads ⊆ t.reads := by
  intro r hr
  obtain ⟨s, hs, hread⟩ := mem_reads.mp hr
  exact mem_reads.mpr ⟨s, parts_subset t u hu hs, hread⟩

/-- The index of a read is a subterm. -/
theorem index_mem_parts {t : Term} {r : Read} (h : r ∈ t.reads) : r.index ∈ t.parts := by
  obtain ⟨u, hu, hread⟩ := mem_reads.mp h
  obtain ⟨l, a, rest, w, rfl, -⟩ := read?_eq_some hread
  exact parts_subset t _ hu (mem_parts_apply (by simp) (mem_parts_self _))

/-- The indices of the stores on an array are subterms. -/
theorem storeIndices_subset (t : Term) : t.storeIndices ⊆ t.parts := by
  fun_induction storeIndices t with
  | case1 l a i e w ih =>
      refine List.cons_subset.mpr ⟨mem_parts_apply (by simp) (mem_parts_self i), fun j hj => ?_⟩
      exact mem_parts_apply List.mem_cons_self (ih hj)
  | case2 => exact List.nil_subset _

/-- The indices of the stores below a read are subterms. -/
theorem stores_mem_parts {t : Term} {r : Read} (h : r ∈ t.reads) {j : Term} (hj : j ∈ r.stores) :
    j ∈ t.parts := by
  obtain ⟨u, hu, hread⟩ := mem_reads.mp h
  obtain ⟨l, a, rest, w, rfl, -, hstores, -⟩ := read?_eq_some hread
  rw [hstores] at hj
  exact parts_subset t _ hu (mem_parts_apply List.mem_cons_self (storeIndices_subset a hj))

/-- Whether the arrays among the arguments of a term are accessed by it. -/
def accessesArrays : Term → Bool
  | apply (.access _ _) (a :: _) _ => a.isArray
  | apply _ args _ => !args.any isArray
  | _ => true

/-- Arrays occur in a term only to be accessed: they are not compared, and there is no choice
between them. -/
def OnlyAccesses (t : Term) : Prop :=
  ∀ u ∈ t.parts, u.accessesArrays

instance (t : Term) : Decidable t.OnlyAccesses :=
  inferInstanceAs (Decidable (∀ u ∈ t.parts, u.accessesArrays))

/-- If arrays are only accessed in a term, they are in its subterms. -/
theorem OnlyAccesses.of_mem {t u : Term} (h : t.OnlyAccesses) (hu : u ∈ t.parts) : u.OnlyAccesses :=
  fun s hs => h s (parts_subset t u hu hs)

/-- If arrays are only accessed in an application, they are in its arguments. -/
theorem OnlyAccesses.arg {h : Head} {args : List Term} {w : Nat} {t : Term}
    (hacc : (apply h args w).OnlyAccesses) (ht : t ∈ args) : t.OnlyAccesses :=
  hacc.of_mem (mem_parts_apply ht (mem_parts_self t))

/-- If arrays are only accessed in a term, its root accesses them or uses none. -/
theorem OnlyAccesses.root {t : Term} (hacc : t.OnlyAccesses) : t.accessesArrays :=
  hacc t (mem_parts_self t)

end Term

/-- The interpretation says of the symbols of a term what the assignment says: words have their
numbers, and an array has the number of each read where the read looks at it. -/
structure Interpretation.Follows (I : Interpretation) (env : Assignment) (t : Term) : Prop where
  words : ∀ v, t.Mentions v → ∃ n, env v.name = some n ∧ I.word v = BitVec.ofNat v.width n
  elements : ∀ r ∈ t.reads, ∃ n, env r.name = some n ∧
    ∀ x : BitVec r.array.role.indexWidth, r.Reaches env (.ofBitVec x) →
      I.array r.array x = BitVec.ofNat r.array.width n

namespace Term

/-- A term mentions what its subterms mention. -/
theorem Mentions.of_mem {t u : Term} {v : Variable} (hv : u.Mentions v) (hu : u ∈ t.parts) :
    t.Mentions v := by
  rcases hv with hv | ⟨l, hl⟩
  · exact .inl (parts_subset t u hu hv)
  · exact .inr ⟨l, parts_subset t u hu hl⟩

end Term

namespace Interpretation

variable {I : Interpretation} {env : Assignment}

/-- What an interpretation follows for a term, it follows for its subterms. -/
theorem Follows.of_mem {t u : Term} (h : I.Follows env t) (hu : u ∈ t.parts) : I.Follows env u where
  words v hv := h.words v (hv.of_mem hu)
  elements r hr := h.elements r (Term.reads_subset hu hr)

/-- What an interpretation follows for an application, it follows for its arguments. -/
theorem Follows.arg {h : Head} {args : List Term} {w : Nat} {t : Term}
    (hI : I.Follows env (.apply h args w)) (ht : t ∈ args) : I.Follows env t :=
  hI.of_mem (Term.mem_parts_apply ht (Term.mem_parts_self t))

end Interpretation

namespace Term

variable {I : Interpretation} {env : Assignment}

/-- What evaluation finds of a meaning: the value of data, and the elements of an array, if the
array at the bottom has the number that the name of the element stands for, where no store has the
element. -/
structure Computed (I : Interpretation) (env : Assignment) (t : Term) (m : Meaning) : Prop where
  value : t.isArray = false → eval env t = .ok m.value ∧ m.isData
  elements : ∀ v, t.arrayOf? = some v → ∃ f, m = .array v.role.indexWidth v.width f ∧
    ∀ name n x, env name = some n →
      ((∀ j ∈ t.storeIndices, j.eval env ≠ .ok (.ofBitVec x)) →
        I.array v x = BitVec.ofNat v.width n) →
      evalElement env name x.toNat t = .ok (.ofBitVec (f x))

/-- A term that is no array has a value only. -/
theorem computed_of_value {t : Term} {m : Meaning} (ht : t.isArray = false)
    (h : eval env t = .ok m.value ∧ m.isData) : Computed I env t m where
  value _ := h
  elements v hv := by simp [isArray, hv] at ht

/-- Data is evaluated. -/
theorem Computed.eval_eq {t : Term} {m : Meaning} (h : Computed I env t m) (hm : m.isData) :
    eval env t = .ok m.value := by
  cases ht : t.arrayOf? with
  | none => exact (h.value (by rw [isArray, ht]; rfl)).1
  | some v =>
      obtain ⟨f, rfl, -⟩ := h.elements v ht
      cases hm

/-- A symbol with a number evaluates to it, taken modulo the width. -/
theorem symbolValue_eq {name : String} {n : Nat} (h : env name = some n) (w : Nat) :
    symbolValue env name w = .ok (.ofBitVec (BitVec.ofNat w n)) := by
  simp only [symbolValue, h, Value.ofNat_eq_ofBitVec]

/-- An array symbol has the elements that the interpretation gives it. -/
theorem computed_array (v : Variable) :
    Computed I env (.array v) (.array v.role.indexWidth v.width (I.array v)) where
  value h := nomatch h
  elements u hu := by
    cases hu
    refine ⟨_, rfl, fun name n x hn hx => ?_⟩
    rw [evalElement, symbolValue_eq hn, hx fun j hj => absurd hj List.not_mem_nil]

/-- A read takes the stored element if a store has its index, and otherwise that of the array, which
has the number of the read there. -/
theorem computed_select {a j : Term} {i w : Nat} {f : BitVec i → BitVec w} {x : BitVec i}
    {l : Location} (hI : I.Follows env (.apply (.access .read l) [a, j] w)) {v : Variable}
    (hv : a.arrayOf? = some v) (iha : Computed I env a (.array i w f))
    (ihj : Computed I env j (.bits i x)) :
    Computed I env (.apply (.access .read l) [a, j] w) (.bits w (f x)) := by
  refine computed_of_value rfl ⟨?_, rfl⟩
  obtain ⟨g, hg, helement⟩ := iha.elements v hv
  cases hg
  have hindex : eval env j = .ok (.ofBitVec x) := ihj.eval_eq rfl
  have hread : ⟨v, a.storeIndices, j, l.name⟩ ∈ reads (.apply (.access .read l) [a, j] v.width) :=
    mem_reads.mpr ⟨_, mem_parts_self _, by simp [read?, hv]⟩
  obtain ⟨n, hn, hfollows⟩ := hI.elements _ hread
  rw [eval, hindex]
  exact helement l.name n x hn fun hmissed => hfollows x ⟨hindex, hmissed⟩

/-- A store has the stored element, and all others of the array below it. -/
theorem computed_store {a j e : Term} {i w : Nat} {f : BitVec i → BitVec w} {x : BitVec i}
    {y : BitVec w} {l : Location} {v : Variable} (hv : a.arrayOf? = some v)
    (iha : Computed I env a (.array i w f)) (ihj : Computed I env j (.bits i x))
    (ihe : Computed I env e (.bits w y)) :
    Computed I env (.apply (.access .write l) [a, j, e] 0)
      (.array i w fun z => if z = x then y else f z) where
  value h := by simp [isArray, arrayOf?, hv] at h
  elements u hu := by
    obtain rfl : v = u := by simpa [arrayOf?, hv] using hu
    obtain ⟨g, hg, helement⟩ := iha.elements v hv
    cases hg
    have hindex : eval env j = .ok (.ofBitVec x) := ihj.eval_eq rfl
    have hstored : eval env e = .ok (.ofBitVec y) := ihe.eval_eq rfl
    refine ⟨_, rfl, fun name n z hn hz => ?_⟩
    rw [evalElement, hindex]
    by_cases hxz : z = x
    · simp [hxz, hstored, bind, Except.bind]
    · have hne : x.toNat ≠ z.toNat := fun h => hxz (BitVec.eq_of_toNat_eq h.symm)
      have hother : j.eval env ≠ .ok (.ofBitVec z) := by
        rw [hindex, Ne, Except.ok.injEq, Value.ofBitVec_inj]
        exact Ne.symm hxz
      have hbelow := helement name n z hn fun hmissed =>
        hz (List.forall_mem_cons.mpr ⟨hother, hmissed⟩)
      simp [hxz, hne, bind, Except.bind, hbelow]

/-- Evaluation finds the meaning of a term that only accesses arrays, if the interpretation of its
symbols follows the assignment. -/
theorem Denotes.computed {t : Term} {m : Meaning} (h : t.Denotes I m) (hacc : t.OnlyAccesses)
    (hI : I.Follows env t) : Computed I env t m := by
  induction h with
  | truth b => exact computed_of_value rfl ⟨rfl, rfl⟩
  | literal n w =>
      exact computed_of_value rfl ⟨congrArg Except.ok (Value.ofNat_eq_ofBitVec n w), rfl⟩
  | input v =>
      obtain ⟨n, hn, hv⟩ := hI.words v (.inl (mem_parts_self _))
      refine computed_of_value rfl ⟨?_, rfl⟩
      rw [eval, symbolValue_eq hn, Meaning.value, hv]
  | cell v l =>
      obtain ⟨n, hn, hv⟩ := hI.words v (.inr ⟨l, mem_parts_self _⟩)
      refine computed_of_value rfl ⟨?_, rfl⟩
      rw [eval, symbolValue_eq hn, Meaning.value, hv]
  | array v => exact computed_array v
  | select l ha hj iha ihj =>
      obtain ⟨v, hv⟩ := Option.isSome_iff_exists.mp hacc.root
      exact computed_select hI hv (iha (hacc.arg (by simp)) (hI.arg (by simp)))
        (ihj (hacc.arg (by simp)) (hI.arg (by simp)))
  | store l ha hj he iha ihj ihe =>
      obtain ⟨v, hv⟩ := Option.isSome_iff_exists.mp hacc.root
      exact computed_store hv (iha (hacc.arg (by simp)) (hI.arg (by simp)))
        (ihj (hacc.arg (by simp)) (hI.arg (by simp))) (ihe (hacc.arg (by simp)) (hI.arg (by simp)))
  | apply hlen hargs ho ih =>
      have hroot := hacc.root
      simp only [accessesArrays, Bool.not_eq_true', List.any_eq_false] at hroot
      refine computed_of_value rfl (eval_of_args ho hlen fun p hp => ?_)
      have hmem := (List.of_mem_zip hp).1
      exact (ih p hp (hacc.arg hmem) (hI.arg hmem)).value (by simpa using hroot p.1 hmem)

end Term

end Pathwise
