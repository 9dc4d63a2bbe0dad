import Mathlib.Data.List.Forall2
import Pathwise.Profile.Basic
import Pathwise.Proofs.Domain.Exactness
import Pathwise.Proofs.Term.Subterm

/-!
# Terms with other names, at other places

A *relocation* gives symbols and bases new names, and moves what has the same base by the same
amount. `Term.Moved` relates a term to what a relocation makes of it. The index of an array access
is where an address is computed, so all that is asked of it is that it still makes the same
accesses.

What comparisons read off a term commutes with relocations.

* **Data** (`Moved.layers_eq`, `Moved.transformations_eq`): what is not part of an address keeps its
  operators and literals, so that layers and transformations stay as they are.
* **Accesses** (`Moved.accessed_eq`, `Moved.touches_eq`): the locations are moved, in their order.
* **Bounds** (`Moved.bound_eq`): the input of a bound is renamed.
-/

namespace Pathwise

/-! ### Relocations -/

/-- New names for symbols, bases and locations, and for each base how far its addresses are
moved. -/
structure Relocation where
  symbol : String → String
  base : String → String
  shift : String → Int
  label : Location → String

namespace Relocation

/-- A symbol under its new name. -/
def rename (m : Relocation) (v : Variable) : Variable :=
  { v with name := m.symbol v.name }

/-- A location at its new place. -/
def move (m : Relocation) (l : Location) : Location :=
  { l with
    name := m.label l
    base := m.base l.base
    address := (l.address + m.shift l.base).toNat }

/-- A bound on a renamed input. -/
def bound (m : Relocation) (b : Bound) : Bound :=
  { b with var := m.rename b.var }

end Relocation

namespace Term

variable {m : Relocation} {t t' : Term} {ts ts' : List Term}

/-! ### Accesses and data -/

/-- All accesses in a term, in the order of its subterms. -/
def accessed (t : Term) : List Touch :=
  t.subterms.filterMap (·.term.touch?)

/-- The accesses of a term are made by its subterms. -/
theorem accessed_eq (t : Term) : t.accessed = t.parts.filterMap touch? := by
  rw [parts, List.filterMap_map]
  rfl

/-- An application makes its own access first, if it is one, and then those of its arguments. -/
theorem accessed_apply (h : Head) (args : List Term) (w : Nat) :
    (apply h args w).accessed = (apply h args w).touch?.toList ++ args.flatMap accessed := by
  have hargs : (args.flatMap parts).filterMap touch? = args.flatMap accessed := by
    rw [List.filterMap_flatMap]
    congr 1
    funext t
    exact (accessed_eq t).symm
  rw [accessed_eq, parts_apply, List.filterMap_cons, hargs]
  cases (apply h args w).touch? <;> rfl

/-- A term is an equation with a memory symbol on its left. -/
def Writes (t : Term) : Prop :=
  ∃ is v l ts w, t = apply (.op .eq is) (cell v l :: ts) w

/-- Where nothing is written, the accesses that are listed are those that are made. -/
theorem touches_of_not_writes (h : ¬ t.Writes) : t.touches = t.accessed := by
  unfold touches
  split
  · exact absurd ⟨_, _, _, _, _, rfl⟩ h
  · rfl

/-- The data of a term do not depend on where it stands. -/
theorem map_term_dataOccurrences (parent : Option Head) (place : Nat) (t : Term) :
    (t.dataOccurrences parent place).map (·.term) = t.dataTerms := by
  cases t <;> simp [dataTerms, dataOccurrences]

/-- Past the index, all arguments hold data. -/
theorem map_term_dataArgOccurrences {h : Head} {place : Nat}
    (hplace : h.opIs Op.isMemory = false ∨ 2 ≤ place) (ts : List Term) :
    (dataArgOccurrences h place ts).map (·.term) = ts.flatMap dataTerms := by
  induction ts generalizing place with
  | nil => rfl
  | cons t ts ih =>
      have hdata : (h.opIs Op.isMemory && place == 1) = false := by
        rcases hplace with hh | hplace
        · rw [hh, Bool.false_and]
        · have hne : place ≠ 1 := by omega
          simp [hne]
      rw [dataArgOccurrences, hdata, if_neg Bool.false_ne_true, List.map_append,
        map_term_dataOccurrences, ih (hplace.imp id (by omega)), List.flatMap_cons]

/-- The data of an application are the application and the data of its arguments. -/
theorem dataTerms_apply {h : Head} (hh : h.opIs Op.isMemory = false) (args : List Term) (w : Nat) :
    (apply h args w).dataTerms = apply h args w :: args.flatMap dataTerms := by
  rw [dataTerms, dataOccurrences, List.map_cons, map_term_dataArgOccurrences (.inl hh)]

/-- In an access, the index is an address and holds no data. -/
theorem dataTerms_access (k : AccessKind) (l : Location) (a i : Term) (rest : List Term) (w : Nat) :
    (apply (.access k l) (a :: i :: rest) w).dataTerms =
      apply (.access k l) (a :: i :: rest) w :: (a.dataTerms ++ rest.flatMap dataTerms) := by
  have hmemory : (Head.access k l).opIs Op.isMemory = true := by cases k <;> rfl
  rw [dataTerms, dataOccurrences, List.map_cons, dataArgOccurrences, dataArgOccurrences]
  simp [hmemory, map_term_dataOccurrences, map_term_dataArgOccurrences]

/-! ### Moved terms -/

/-- A term is what a relocation makes of another one. The index of an access may be computed in any
way that makes the same accesses, since the location says where it leads. -/
inductive Moved (m : Relocation) : Term → Term → Prop
  | input (v : Variable) : Moved m (.input v) (.input (m.rename v))
  | cell (v : Variable) (l : Location) : Moved m (.cell v l) (.cell (m.rename v) (m.move l))
  | array (v : Variable) : Moved m (.array v) (.array (m.rename v))
  | literal (n w : Nat) : Moved m (.literal n w) (.literal n w)
  | truth (b : Bool) : Moved m (.truth b) (.truth b)
  | apply {h : Head} {args args' : List Term} (w : Nat) (hh : h.opIs Op.isMemory = false)
      (hargs : List.Forall₂ (Moved m) args args') : Moved m (.apply h args w) (.apply h args' w)
  | access (k : AccessKind) (l : Location) {a a' i i' : Term} {rest rest' : List Term} (w : Nat)
      (ha : Moved m a a') (hi : i'.accessed = i.accessed.map (Prod.map m.move id))
      (hrest : List.Forall₂ (Moved m) rest rest') :
      Moved m (.apply (.access k l) (a :: i :: rest) w)
        (.apply (.access k (m.move l)) (a' :: i' :: rest') w)

namespace Moved

/-- Induction over moved terms: the arguments of applications are related in the same way. -/
theorem inductionOn {motive : Term → Term → Prop} (ht : Moved m t t')
    (input : ∀ v, motive (.input v) (.input (m.rename v)))
    (cell : ∀ v l, motive (.cell v l) (.cell (m.rename v) (m.move l)))
    (array : ∀ v, motive (.array v) (.array (m.rename v)))
    (literal : ∀ n w, motive (.literal n w) (.literal n w))
    (truth : ∀ b, motive (.truth b) (.truth b))
    (apply : ∀ h args args' w, h.opIs Op.isMemory = false → List.Forall₂ (Moved m) args args' →
      List.Forall₂ motive args args' → motive (.apply h args w) (.apply h args' w))
    (access : ∀ k l a a' i i' rest rest' w, Moved m a a' → motive a a' →
      i'.accessed = i.accessed.map (Prod.map m.move id) → List.Forall₂ (Moved m) rest rest' →
      List.Forall₂ motive rest rest' →
      motive (.apply (.access k l) (a :: i :: rest) w)
        (.apply (.access k (m.move l)) (a' :: i' :: rest') w)) : motive t t' := by
  refine @Moved.rec m (fun t t' _ => motive t t') (fun ts ts' _ => List.Forall₂ motive ts ts')
    input cell array literal truth ?_ ?_ .nil ?_ t t' ht
  · intro h args args' w hh hargs ih
    exact apply h args args' w hh hargs ih
  · intro k l a a' i i' rest rest' w ha hi hrest iha ihrest
    exact access k l a a' i i' rest rest' w ha iha hi hrest ihrest
  · intro u u' us us' _ _ ihu ihus
    exact .cons ihu ihus

/-- What moved terms have in common, lists of them have in common term by term. -/
theorem map_eq {α : Type} {f : Term → α} (hf : ∀ t t', Moved m t t' → f t' = f t)
    (h : List.Forall₂ (Moved m) ts ts') : ts'.map f = ts.map f := by
  induction h with
  | nil => rfl
  | cons ht _ ih => rw [List.map_cons, List.map_cons, hf _ _ ht, ih]

/-! ### Data -/

/-- The data of a moved term are the moved data. -/
theorem forall₂_dataTerms (ht : Moved m t t') :
    List.Forall₂ (Moved m) t.dataTerms t'.dataTerms := by
  have hleaf {u u' : Term} (hu : Moved m u u') (h : u.dataTerms = [u]) (h' : u'.dataTerms = [u']) :
      List.Forall₂ (Moved m) u.dataTerms u'.dataTerms := by
    rw [h, h']
    exact .cons hu .nil
  refine ht.inductionOn (motive := fun t t' => List.Forall₂ (Moved m) t.dataTerms t'.dataTerms)
    (fun v => hleaf (.input v) rfl rfl) (fun v l => hleaf (.cell v l) rfl rfl)
    (fun v => hleaf (.array v) rfl rfl) (fun n w => hleaf (.literal n w) rfl rfl)
    (fun b => hleaf (.truth b) rfl rfl) ?_ ?_
  · intro h args args' w hh hargs ih
    rw [dataTerms_apply hh, dataTerms_apply hh]
    exact .cons (.apply w hh hargs) (List.rel_flatMap ih fun _ _ h => h)
  · intro k l a a' i i' rest rest' w ha iha hi hrest ih
    rw [dataTerms_access, dataTerms_access]
    exact .cons (.access k l w ha hi hrest)
      (List.rel_append iha (List.rel_flatMap ih fun _ _ h => h))

/-- A moved term touches memory just if the term does. -/
theorem touchesMemory_eq (ht : Moved m t t') : t'.touchesMemory = t.touchesMemory := by
  cases ht <;> rfl

/-- A moved term transforms data just if the term does. -/
theorem transformsData_eq (ht : Moved m t t') : t'.transformsData = t.transformsData := by
  cases ht <;> rfl

/-- Literals stay as they are. -/
theorem literal?_eq (ht : Moved m t t') : t'.literal? = t.literal? := by
  cases ht <;> rfl

/-- A moved term belongs to the same layers. -/
theorem layers_eq (ht : Moved m t t') : t'.layers = t.layers := by
  have hany {f : Term → Bool} (hf : ∀ t t', Moved m t t' → f t' = f t) :
      t'.dataTerms.any f = t.dataTerms.any f := by
    have hmap := map_eq hf ht.forall₂_dataTerms
    have hid (us : List Term) : us.any f = (us.map f).any id := by rw [List.any_map]; rfl
    rw [hid, hid, hmap]
  unfold layers
  rw [hany fun _ _ => touchesMemory_eq, hany fun _ _ => transformsData_eq]

/-- A moved term makes the same transformation. -/
theorem transformation?_eq (ht : Moved m t t') :
    Transformation.ofTerm? t' = Transformation.ofTerm? t := by
  cases ht with
  | @apply h args args' w hh hargs =>
      cases h with
      | op o is =>
          have hfirst (us : List Term) :
              us.findSome? literal? = (us.map literal?).findSome? id := by
            rw [List.findSome?_map]
            rfl
          simp only [Transformation.ofTerm?]
          rw [hfirst args', map_eq (fun _ _ => literal?_eq) hargs, ← hfirst, hargs.length_eq]
      | access k l => rfl
      | unknown name is => rfl
  | _ => rfl

/-- A moved term makes the same transformations, in the same order. -/
theorem transformations_eq (ht : Moved m t t') :
    Transformation.ofTerm t' = Transformation.ofTerm t := by
  have hmap := map_eq (fun _ _ => transformation?_eq) ht.forall₂_dataTerms
  have hid (us : List Term) : us.filterMap Transformation.ofTerm? =
      (us.map Transformation.ofTerm?).filterMap id := by
    rw [List.filterMap_map]
    rfl
  unfold Transformation.ofTerm
  rw [hid, hid, hmap]

/-! ### Accesses -/

/-- The accesses of terms that move all of them. -/
theorem flatMap_accessed_eq
    (h : List.Forall₂ (fun t t' => t'.accessed = t.accessed.map (Prod.map m.move id)) ts ts') :
    ts'.flatMap accessed = (ts.flatMap accessed).map (Prod.map m.move id) := by
  induction h with
  | nil => rfl
  | cons ht _ ih => rw [List.flatMap_cons, List.flatMap_cons, List.map_append, ht, ih]

/-- A moved term accesses the moved locations, in the same order and manner. -/
theorem accessed_eq (ht : Moved m t t') : t'.accessed = t.accessed.map (Prod.map m.move id) := by
  refine ht.inductionOn (motive := fun t t' => t'.accessed = t.accessed.map (Prod.map m.move id))
    (fun v => rfl) (fun v l => rfl) (fun v => rfl) (fun n w => rfl) (fun b => rfl) ?_ ?_
  · intro h args args' w hh hargs ih
    have hnone (us : List Term) : (Term.apply h us w).touch? = none := by
      cases h with
      | access k l => cases k <;> cases hh
      | _ => rfl
    rw [accessed_apply, accessed_apply, hnone, hnone, List.map_append, flatMap_accessed_eq ih]
    rfl
  · intro k l a a' i i' rest rest' w ha iha hi hrest ih
    rw [accessed_apply, accessed_apply, List.map_append]
    congr 1
    simp only [List.flatMap_cons, List.map_append, iha, hi, flatMap_accessed_eq ih]

/-- A moved term touches the moved locations. What an equation writes stays written. -/
theorem touches_eq (ht : Moved m t t') : t'.touches = t.touches.map (Prod.map m.move id) := by
  by_cases hwrites : t.Writes
  · obtain ⟨is, v, l, us, w, rfl⟩ := hwrites
    cases ht with
    | apply w hh hargs =>
        cases hargs with
        | cons hfirst hus =>
            cases hfirst with
            | cell v l =>
                have hrest : argTouches _ = (argTouches us).map (Prod.map m.move id) :=
                  flatMap_accessed_eq (hus.imp fun _ _ => accessed_eq)
                simp only [touches, List.map_cons, hrest]
                rfl
  · have hwrites' : ¬ t'.Writes := by
      rintro ⟨is, v', l', us', w, rfl⟩
      refine hwrites ?_
      cases ht with
      | apply w hh hargs =>
          cases hargs with
          | cons hfirst hus =>
              cases hfirst with
              | cell v l => exact ⟨is, v, l, _, w, rfl⟩
    rw [touches_of_not_writes hwrites, touches_of_not_writes hwrites', ht.accessed_eq]

/-! ### Bounds -/

/-- The subject of a bound is moved to the renamed input. -/
theorem subject (ht : Moved m t t') {v : Variable} {e : Widening} (hs : Bound.Subject v e t) :
    Bound.Subject (m.rename v) e t' := by
  have hinput {us : List Term} (hus : List.Forall₂ (Moved m) [.input v] us) :
      us = [.input (m.rename v)] := by
    cases hus with
    | cons hfirst hrest =>
        cases hrest
        cases hfirst
        rfl
  cases hs with
  | input =>
      cases ht
      exact .input
  | extract h =>
      cases ht with
      | apply w hh hargs =>
          rw [hinput hargs]
          exact .extract h
  | zeroExtend n u =>
      cases ht with
      | apply w hh hargs =>
          rw [hinput hargs]
          exact .zeroExtend n u
  | signExtend n u =>
      cases ht with
      | apply w hh hargs =>
          rw [hinput hargs]
          exact .signExtend n u

/-- Every subject of a moved term comes from one of the term. -/
theorem exists_subject (ht : Moved m t t') {v' : Variable} {e : Widening}
    (hs : Bound.Subject v' e t') : ∃ v, m.rename v = v' ∧ Bound.Subject v e t := by
  have hinput {us : List Term} (hus : List.Forall₂ (Moved m) us [.input v']) :
      ∃ v, m.rename v = v' ∧ us = [.input v] := by
    cases hus with
    | cons hfirst hrest =>
        cases hrest
        cases hfirst
        exact ⟨_, rfl, rfl⟩
  cases hs with
  | input =>
      cases ht
      exact ⟨_, rfl, .input⟩
  | extract h =>
      cases ht with
      | apply w hh hargs =>
          obtain ⟨v, rfl, rfl⟩ := hinput hargs
          exact ⟨v, rfl, .extract h⟩
  | zeroExtend n u =>
      cases ht with
      | apply w hh hargs =>
          obtain ⟨v, rfl, rfl⟩ := hinput hargs
          exact ⟨v, rfl, .zeroExtend n u⟩
  | signExtend n u =>
      cases ht with
      | apply w hh hargs =>
          obtain ⟨v, rfl, rfl⟩ := hinput hargs
          exact ⟨v, rfl, .signExtend n u⟩

/-- The subject is found alike, and renamed. -/
theorem subject?_eq (ht : Moved m t t') :
    Bound.subject? t' = (Bound.subject? t).map (Prod.map m.rename id) := by
  ext ⟨v', e⟩
  rw [Option.map_eq_some_iff, Bound.subject?_eq_some_iff]
  constructor
  · intro hs
    obtain ⟨v, rfl, hv⟩ := ht.exists_subject hs
    exact ⟨(v, e), Bound.subject?_eq_some_iff.mpr hv, rfl⟩
  · rintro ⟨⟨v, e⟩, hs, heq⟩
    cases heq
    exact ht.subject (Bound.subject?_eq_some_iff.mp hs)

variable {a a' b b' : Term}

/-- A bound that names its subject first is found alike. -/
theorem direct?_eq (o : Op) (ha : Moved m a a') (hb : Moved m b b') :
    Bound.direct? o a' b' = (Bound.direct? o a b).map m.bound := by
  unfold Bound.direct?
  rw [ha.subject?_eq]
  cases hb <;> cases Bound.subject? a <;> rfl

/-- A bound is found alike in a moved comparison. -/
theorem compare?_eq (o : Op) (ha : Moved m a a') (hb : Moved m b b') :
    Bound.compare? o a' b' = (Bound.compare? o a b).map m.bound := by
  unfold Bound.compare?
  rw [direct?_eq o ha hb, direct?_eq o.flip hb ha, Option.map_or]

/-- A moved term is the same bound on the renamed input. -/
theorem bound_eq (ht : Moved m t t') (negated : Bool) :
    Bound.ofTerm? negated t' = (Bound.ofTerm? negated t).map m.bound := by
  refine ht.inductionOn (motive := fun t t' => ∀ negated,
    Bound.ofTerm? negated t' = (Bound.ofTerm? negated t).map m.bound)
    (fun v _ => rfl) (fun v l _ => rfl) (fun v _ => rfl) (fun n w _ => rfl) (fun b _ => rfl) ?_ ?_
    negated
  · intro h args args' w hh hargs ih negated
    cases h with
    | access k l => rfl
    | unknown name is => rfl
    | op o is =>
        by_cases ho : o = .not
        · subst ho
          cases ih with
          | nil => rfl
          | cons hfirst _ => exact hfirst _
        · match args, args', hargs with
          | [], _, .nil => simp [Bound.ofTerm?]
          | [a], _, .cons ha .nil => simp [Bound.ofTerm?, ho]
          | [a, b], _, .cons ha (.cons hb .nil) =>
              simp only [Bound.ofTerm?]
              split
              · exact compare?_eq _ ha hb
              · rfl
          | _ :: _ :: _ :: _, _, .cons ha (.cons hb (.cons hc _)) => simp [Bound.ofTerm?, ho]
  · intro k l a a' i i' rest rest' w ha iha hi hrest ih negated
    rfl

end Moved

end Term

end Pathwise
