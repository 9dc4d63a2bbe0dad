import Pathwise.Proofs.Comparison.Agreement
import Pathwise.Proofs.Comparison.Subsequence
import Pathwise.Proofs.Oracle.Pairing
import Pathwise.Proofs.Term.Equality
import Pathwise.Proofs.Term.Relocation
import Pathwise.Session.Basic

/-!
# Comparison sees through relocation

A program that is compiled again may call its inputs something else and keep its data elsewhere.
Paths that differ in nothing else are found to agree.

* **Relocated paths** (`Path.Relocated`): symbols are renamed, locations are moved, and constraints
  are moved term by term.
* **Admissible relocations** (`Relocation.Admissible`): inputs and arrays stay apart, bases stay
  apart, absolute addresses stay absolute, and no address leaves the address space. Then different
  locations stay different (`Admissible.move_inj`), and accesses are moved rigidly
  (`Admissible.rigid`).
* **Layers** (`Relocated.domains_eq`, `Relocated.transformations_eq`, `Relocated.keys_eq`): domains
  and transformations stay as they are, and so do the keys of accesses under the relative policy.
-/

namespace Pathwise

/-- A path is what a relocation makes of another one. What it is called, where it was read and what
it returned do not matter. -/
structure Path.Relocated (m : Relocation) (p q : Path) : Prop where
  declared : q.declared = p.declared.map m.rename
  memory : q.memory = p.memory.map m.move
  constraints : List.Forall₂ (fun c d => d.index = c.index ∧ Term.Moved m c.term d.term)
    p.constraints q.constraints

/-- A relocation that keeps apart what a path has. -/
structure Relocation.Admissible (m : Relocation) (p : Path) : Prop where
  symbols : ∀ u ∈ p.declared, ∀ v ∈ p.declared, u.role ≠ .memory → v.role ≠ .memory →
    m.symbol u.name = m.symbol v.name → u.name = v.name
  bases : ∀ l ∈ p.memory, ∀ k ∈ p.memory, m.base l.base = m.base k.base → l.base = k.base
  absolute : ∀ l ∈ p.memory, m.base l.base = "" ↔ l.base = ""
  addresses : ∀ l ∈ p.memory,
    0 ≤ l.address + m.shift l.base ∧ l.address + m.shift l.base < 2 ^ 64

variable {m : Relocation} {p q : Path}

/-! ### What a path accesses and bounds -/

/-- What a well-formed term touches is among the locations of its path. -/
theorem Term.WellFormed.mem_memory {declared : List Variable} {memory : List Location} {t : Term}
    (hwf : t.WellFormed declared memory) {x : Touch} (hx : x ∈ t.touches) : x.1 ∈ memory := by
  have haccessed {u : Term} (hu : u.WellFormed declared memory) (hx : x ∈ u.accessed) :
      x.1 ∈ memory := by
    rw [accessed_eq, List.mem_filterMap] at hx
    obtain ⟨s, hs, hsx⟩ := hx
    have hfits := hu s hs
    unfold touch? at hsx
    split at hsx
    · cases hsx
      exact hfits.2.2.1
    · cases hsx
      exact hfits.2.1
    · cases hsx
  by_cases hwrites : t.Writes
  · obtain ⟨is, v, l, ts, w, rfl⟩ := hwrites
    rcases List.mem_cons.mp hx with rfl | hx
    · have hcell := (hwf.arg (List.mem_cons_self)).fits
      exact hcell.2.2.1
    · obtain ⟨u, hu, hxu⟩ := List.mem_flatMap.mp hx
      exact haccessed (hwf.arg (List.mem_cons_of_mem _ hu)) hxu
  · rw [touches_of_not_writes hwrites] at hx
    exact haccessed hwf hx

/-- The input that a bound is about occurs in it. -/
theorem Bound.Subject.mem_parts {v : Variable} {e : Widening} {t : Term} (h : Subject v e t) :
    .input v ∈ t.parts := by
  cases h with
  | input => exact Term.mem_parts_self _
  | _ => exact Term.mem_parts_apply List.mem_cons_self (Term.mem_parts_self _)

/-- The input of a bound occurs in it. -/
theorem Bound.mem_parts_of_ofTerm? {negated : Bool} {t : Term} {b : Bound}
    (h : ofTerm? negated t = some b) : .input b.var ∈ t.parts := by
  fun_induction ofTerm? negated t with
  | case1 negated _ t ts w ih => exact Term.mem_parts_apply List.mem_cons_self (ih h)
  | case2 negated o is a c w ho =>
      rcases compare?_eq_some_iff.mp h with ⟨hs, -⟩ | ⟨hs, -⟩
      · exact Term.mem_parts_apply List.mem_cons_self hs.mem_parts
      · exact Term.mem_parts_apply (List.mem_cons_of_mem _ List.mem_cons_self) hs.mem_parts
  | case3 => cases h
  | case4 => cases h

/-- The bounds of a well-formed path are about its inputs. -/
theorem Path.WellFormed.bound_var (hp : p.WellFormed) {b : Bound} (hb : b ∈ p.bounds) :
    b.var ∈ p.inputs := by
  obtain ⟨c, hc, hbc⟩ := mem_bounds.mp hb
  have hfits := hp.terms c (List.mem_of_mem_filter hc) _ (Bound.mem_parts_of_ofTerm? hbc)
  exact mem_inputs.mpr hfits

/-! ### Admissible relocations -/

namespace Relocation.Admissible

/-- An admissible relocation keeps inputs apart. -/
theorem rename_inj (hm : m.Admissible p) {u v : Variable} (hu : u ∈ p.inputs) (hv : v ∈ p.inputs)
    (h : m.rename u = m.rename v) : u = v := by
  obtain ⟨hu, hurole⟩ := Path.mem_inputs.mp hu
  obtain ⟨hv, hvrole⟩ := Path.mem_inputs.mp hv
  simp only [rename, Variable.mk.injEq] at h
  have hname := hm.symbols u hu v hv (by simp [hurole]) (by simp [hvrole]) h.1
  cases u
  cases v
  rw [Variable.mk.injEq]
  exact ⟨hname, h.2⟩

/-- Locations at different places are moved to different places. -/
theorem move_inj (hm : m.Admissible p) (hp : p.WellFormed) {l k : Location} (hl : l ∈ p.memory)
    (hk : k ∈ p.memory) (h : m.move l = m.move k) : l = k := by
  have hbase : l.base = k.base := hm.bases l hl k hk (congrArg Location.base h)
  have haddress : l.address = k.address := by
    have hmoved : (l.address + m.shift l.base).toNat = (k.address + m.shift k.base).toNat :=
      congrArg Location.address h
    have hl0 := (hm.addresses l hl).1
    have hk0 := (hm.addresses k hk).1
    rw [hbase] at hmoved hl0
    omega
  have hepoch : (m.move l).epoch = (m.move k).epoch := congrArg Location.epoch h
  exact hp.epochs.eq_of_epoch hl hk hbase haddress hepoch

/-- An admissible relocation moves the memory of each base as a whole. -/
theorem rigid (hm : m.Admissible p) {touches : List Term.Touch}
    (htouches : ∀ t ∈ touches, t.1 ∈ p.memory) : Access.Rigid m.move m.base touches where
  base := fun _ _ => rfl
  apart := fun s hs t ht => hm.bases _ (htouches s hs) _ (htouches t ht)
  absolute := fun t ht => hm.absolute _ (htouches t ht)
  epoch := fun _ _ => rfl
  distance := by
    intro s hs t ht hbase
    have hs0 := (hm.addresses _ (htouches s hs)).1
    have ht0 := (hm.addresses _ (htouches t ht)).1
    simp only [move]
    rw [hbase] at hs0 ⊢
    omega

end Relocation.Admissible

/-! ### Relocated paths -/

namespace Path.Relocated

section Constraints

variable {cs ds : List Constraint} (h : List.Forall₂ (fun c d => Term.Moved m c.term d.term) cs ds)
include h

/-- Moved constraints have the moved bounds. -/
theorem filterMap_bound_eq :
    (ds.map (·.term)).filterMap (Bound.ofTerm? false) =
      ((cs.map (·.term)).filterMap (Bound.ofTerm? false)).map m.bound := by
  induction h with
  | nil => rfl
  | @cons c d cs ds hcd _ ih =>
      simp only [List.map_cons, List.filterMap_cons, hcd.bound_eq]
      cases Bound.ofTerm? false c.term with
      | none => exact ih
      | some b => exact congrArg (m.bound b :: ·) ih

/-- Moved constraints make the same transformations. -/
theorem flatMap_transformations_eq :
    (ds.flatMap fun c => Transformation.ofTerm c.term) =
      cs.flatMap fun c => Transformation.ofTerm c.term := by
  induction h with
  | nil => rfl
  | cons hcd _ ih => rw [List.flatMap_cons, List.flatMap_cons, hcd.transformations_eq, ih]

/-- Each constraint touches the moved locations, and repeats the same of them. -/
theorem flatMap_touches_eq
    (hinj : ∀ c ∈ cs, Set.InjOn (Prod.map m.move id) {x | x ∈ c.term.touches}) :
    (ds.flatMap fun c => firsts c.term.touches) =
      (cs.flatMap fun c => firsts c.term.touches).map (Prod.map m.move id) := by
  induction h with
  | nil => rfl
  | cons hcd _ ih =>
      rw [List.forall_mem_cons] at hinj
      rw [List.flatMap_cons, List.flatMap_cons, List.map_append, hcd.touches_eq,
        firsts_map hinj.1, ih hinj.2]

end Constraints

/-- Each bucket of a relocated path is the moved bucket. -/
theorem forall₂_bucket (hq : p.Relocated m q) (l : Layer) :
    List.Forall₂ (fun c d => Term.Moved m c.term d.term) (p.bucket l) (q.bucket l) := by
  have hconstraints := hq.constraints.imp fun _ _ h => h.2
  refine List.rel_filter ?_ hconstraints
  intro c d hcd
  simp only [hcd.layers_eq]

/-- The inputs of a relocated path are the renamed ones. -/
theorem inputs_eq (hq : p.Relocated m q) : q.inputs = p.inputs.map m.rename := by
  unfold inputs
  rw [hq.declared, List.filter_map]
  rfl

/-- The bounds of a relocated path are the moved ones. -/
theorem bounds_eq (hq : p.Relocated m q) : q.bounds = p.bounds.map m.bound :=
  filterMap_bound_eq (hq.forall₂_bucket .controlFlow)

/-- The inputs of a relocated path have the same domains. -/
theorem domains_eq (hq : p.Relocated m q) (hm : m.Admissible p) (hp : p.WellFormed) :
    q.domains = p.domains := by
  rw [Path.domains_eq, Path.domains_eq, hq.inputs_eq, hq.bounds_eq, List.map_map]
  refine List.map_congr_left ?_
  intro v hv
  have hfilter : (p.bounds.map m.bound).filter (·.var == m.rename v) =
      (p.bounds.filter (·.var == v)).map m.bound := by
    rw [List.filter_map]
    congr 1
    refine List.filter_congr ?_
    intro b hb
    have hiff : m.rename b.var = m.rename v ↔ b.var = v :=
      ⟨hm.rename_inj (hp.bound_var hb) hv, congrArg m.rename⟩
    rw [Bool.eq_iff_iff, Function.comp_apply, beq_iff_eq, beq_iff_eq]
    exact hiff
  unfold Domain.ofBounds
  rw [Function.comp_apply, hfilter, List.foldl_map]
  rfl

/-- A relocated path makes the same transformations. -/
theorem transformations_eq (hq : p.Relocated m q) : q.transformations = p.transformations := by
  unfold transformations Transformation.ofConstraints
  rw [flatMap_transformations_eq (hq.forall₂_bucket .transform)]

/-- The keys of the accesses of a relocated path are the same. -/
theorem keys_eq (hq : p.Relocated m q) (hm : m.Admissible p) (hp : p.WellFormed) :
    p.accesses.map (·.key .relative) = q.accesses.map (·.key .relative) := by
  have hmemory : ∀ c ∈ p.bucket .memory, ∀ x ∈ c.term.touches, x.1 ∈ p.memory :=
    fun c hc x hx => (hp.terms c (List.mem_of_mem_filter hc)).mem_memory hx
  have hinj : ∀ c ∈ p.bucket .memory,
      Set.InjOn (Prod.map m.move id) {x | x ∈ c.term.touches} := by
    intro c hc x hx y hy hxy
    obtain ⟨hlocation, hkind⟩ := Prod.ext_iff.mp hxy
    exact Prod.ext (hm.move_inj hp (hmemory c hc x hx) (hmemory c hc y hy) hlocation) hkind
  have hrigid : Access.Rigid m.move m.base
      ((p.bucket .memory).flatMap fun c => firsts c.term.touches) := by
    refine hm.rigid ?_
    intro x hx
    obtain ⟨c, hc, hx⟩ := List.mem_flatMap.mp hx
    exact hmemory c hc x (mem_firsts.mp hx)
  unfold accesses Access.ofConstraints
  rw [flatMap_touches_eq (hq.forall₂_bucket .memory) hinj, hrigid.map_key_describe]

end Path.Relocated

/-! ### Comparing a path with a relocated one -/

namespace Memory

/-- Nothing is relocated against itself. -/
theorem relocated_self (xs : List Access.Key) : relocated xs xs = [] := by
  have hnone : (xs.zip xs).zipIdx.filter (fun p => p.1.1.position != p.1.2.position) = [] := by
    rw [List.filter_eq_nil_iff]
    rintro ⟨⟨a, b⟩, i⟩ hmem
    rw [List.mem_zipIdx_iff_getElem?, List.getElem?_zip_eq_some] at hmem
    obtain ⟨ha, hb⟩ := hmem
    have hab : a = b := Option.some.inj (ha.symm.trans hb)
    simp [hab]
  simp only [relocated, hnone, List.map_nil, ite_self]

/-- Sequences with the same keys are common as a whole, and nothing in them is relocated. -/
theorem details_of_keys_eq {policy : AddressPolicy} {as bs : List Access}
    (h : as.map (·.key policy) = bs.map (·.key policy)) :
    let d := details policy as bs
    d.common = d.lengthA ∧ d.common = d.lengthB ∧ d.relocated = [] := by
  have hlength : as.length = bs.length := by simpa using congrArg List.length h
  simp only [details, h, Subsequence.longestCommon_self, relocated_self, List.length_map, hlength,
    and_self]

end Memory

namespace Path

/-- **Comparison sees through relocation**: a path agrees with what an admissible relocation makes
of it in control flow and transformations, and its accesses have the same keys under the relative
policy, so that the longest common subsequence is all of them and none is reported as relocated. -/
theorem relocation_invisible (hp : p.Accepted) (hm : m.Admissible p) (hq : p.Relocated m q) :
    (ControlFlow.compare (.ofPath p) (.ofPath q)).verdict = .equivalent ∧
    (Transform.compare (.ofPath p) (.ofPath q)).verdict = .equivalent ∧
    p.accesses.map (·.key .relative) = q.accesses.map (·.key .relative) ∧
    let d := Memory.details .relative p.accesses q.accesses
    d.common = d.lengthA ∧ d.common = d.lengthB ∧ d.relocated = [] := by
  have hwf := hp.wellFormed
  have hdomains : p.domains = q.domains := (hq.domains_eq hm hwf).symm
  have htransformations : p.transformations.Perm q.transformations := by
    rw [hq.transformations_eq]
  have hkeys := hq.keys_eq hm hwf
  refine ⟨?_, ?_, hkeys, Memory.details_of_keys_eq hkeys⟩
  · exact ((ControlFlow.decides_compare p.length_domains q.length_domains).agree hdomains).1
  · exact ((Transform.decides_compare _ _).agree htransformations).1

/-- A path that writes the negation of an element of an array to memory. -/
def frame (v a c : Variable) (written read : Location) (index : Term) : Path :=
  .ofTerms "" [v, a, c] [written, read]
    [.apply (.op .ult []) [.input v, .literal 2 2] 0,
      .apply (.op .eq []) [.cell c written,
        .apply (.op .bvNot []) [.apply (.access .read read) [.array a, index] 2] 2] 0]

/-- The path with the moved locations is the relocated path. -/
theorem relocated_frame (m : Relocation) (v a c : Variable) (written read : Location)
    {index index' : Term}
    (hindex : index'.accessed = index.accessed.map (Prod.map m.move id)) :
    (frame v a c written read index).Relocated m
      (frame (m.rename v) (m.rename a) (m.rename c) (m.move written) (m.move read) index') where
  declared := rfl
  memory := rfl
  constraints :=
    have hread := Term.Moved.access .read read 2 (.array a) hindex .nil
    have hequation := Term.Moved.apply 0 rfl
      (.cons (.cell c written) (.cons (.apply 2 rfl (.cons hread .nil)) .nil))
    .cons ⟨rfl, .apply 0 rfl (.cons (.input v) (.cons (.literal 2 2) .nil))⟩
      (.cons ⟨rfl, hequation⟩ .nil)

/-- What is written is moved up by two, and what is read is moved down by one, to the very address
that the input has. -/
theorem relocation_invisible_frame :
    let x : Variable := ⟨"x", 2, .input⟩
    let y : Variable := ⟨"y", 2, .input⟩
    let p := frame x ⟨"m", 2, .array 2⟩ ⟨"mem_1_0_2", 2, .memory⟩ ⟨"mem_1_0_2", "", 1, 0, 0, 2⟩
      ⟨"m[(bvadd x (_ bv1 2))]", "x", 1, -1, 0, 2⟩
      (.apply (.op .add []) [.input x, .literal 1 2] 2)
    let q := frame y ⟨"n", 2, .array 2⟩ ⟨"mem_3_0_2", 2, .memory⟩ ⟨"mem_3_0_2", "", 3, 0, 0, 2⟩
      ⟨"n[y]", "y", 0, -1, 0, 2⟩ (.input y)
    let m : Relocation :=
      { symbol := fun s => if s = "x" then "y" else if s = "m" then "n" else "mem_3_0_2"
        base := fun s => if s = "" then "" else "y"
        shift := fun s => if s = "" then 2 else -1
        label := fun l => if l.base = "" then "mem_3_0_2" else "n[y]" }
    p.Accepted ∧ q.Accepted ∧ m.Admissible p ∧ p.Relocated m q ∧ p.accesses.length = 2 ∧
      (ControlFlow.compare (.ofPath p) (.ofPath q)).verdict = .equivalent ∧
      (Transform.compare (.ofPath p) (.ofPath q)).verdict = .equivalent ∧
      p.accesses.map (·.key .relative) = q.accesses.map (·.key .relative) ∧
      let d := Memory.details .relative p.accesses q.accesses
      d.common = d.lengthA ∧ d.common = d.lengthB ∧ d.relocated = [] := by
  intro x y p q m
  have hp : p.Accepted :=
    ⟨"(declare-const x (_ BitVec 2)) (declare-const m (Array (_ BitVec 2) (_ BitVec 2)))
      (declare-const mem_1_0_2 (_ BitVec 2)) (assert (bvult x #b10))
      (assert (= mem_1_0_2 (bvnot (select m (bvadd x #b01)))))", "", p,
      parse_eq_ok (by decide +kernel), rfl⟩
  have hq : q.Accepted :=
    ⟨"(declare-const y (_ BitVec 2)) (declare-const n (Array (_ BitVec 2) (_ BitVec 2)))
      (declare-const mem_3_0_2 (_ BitVec 2)) (assert (bvult y #b10))
      (assert (= mem_3_0_2 (bvnot (select n y))))", "", q, parse_eq_ok (by decide +kernel), rfl⟩
  have hm : m.Admissible p :=
    ⟨by decide +kernel, by decide +kernel, by decide +kernel, by decide +kernel⟩
  have hpq : p.Relocated m q := by
    have hq : q = frame (m.rename x) (m.rename ⟨"m", 2, .array 2⟩)
        (m.rename ⟨"mem_1_0_2", 2, .memory⟩) (m.move ⟨"mem_1_0_2", "", 1, 0, 0, 2⟩)
        (m.move ⟨"m[(bvadd x (_ bv1 2))]", "x", 1, -1, 0, 2⟩) (.input y) := by decide +kernel
    rw [hq]
    exact relocated_frame m _ _ _ _ _ rfl
  exact ⟨hp, hq, hm, hpq, by decide +kernel, relocation_invisible hp hm hpq⟩

end Path

end Pathwise
