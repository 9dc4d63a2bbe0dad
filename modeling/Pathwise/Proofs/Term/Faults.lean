import Pathwise.Proofs.Term.Connectives
import Pathwise.Proofs.Term.Subterm
import Pathwise.Term.Eval

/-!
# Errors of evaluation

Which errors the evaluation of a term can report: that a symbol that the term looks up has no value,
or that the term has a part that is not supported.

* **Names** (`Term.lookup?`): what a subterm looks up. A select looks up the name of its location,
  however many stores it goes through.
* **Faults** (`Faults`): all errors of a result are of a given kind.
* **Terms** (`Term.faults_eval`): one induction over terms for every kind of errors that has the
  unsupported ones and the missing symbols.
* **Constraints** (`Constraint.faults_allHold`).
-/

namespace Pathwise

/-- Whether an error is about a term that is not supported. -/
def EvalError.isUnsupported : EvalError → Bool
  | arrayValue _ | unknownOperator _ | storeValue | selectOver _ => true
  | unbound _ | notBoolean _ => false

/-- All errors of a result are of some kind. -/
def Faults {α : Type} (E : EvalError → Prop) (r : Except EvalError α) : Prop :=
  ∀ e, r = .error e → E e

section

variable {α β : Type} {E : EvalError → Prop}

/-- A result without error has no fault. -/
theorem faults_ok (a : α) : Faults E (.ok a) := by
  intro e h
  cases h

/-- An error is its own fault. -/
theorem faults_error {e : EvalError} (h : E e) : Faults E (.error e : Except EvalError α) := by
  intro e' h'
  cases h'
  exact h

/-- What is done one after the other has the faults of both. -/
theorem Faults.bind {r : Except EvalError α} {f : α → Except EvalError β} (hr : Faults E r)
    (hf : ∀ a, Faults E (f a)) : Faults E (r >>= f) := by
  cases r with
  | error e => exact faults_error (hr e rfl)
  | ok a => exact hf a

end

namespace Term

/-- The name that a subterm looks up by itself. -/
def lookup? : Term → Option String
  | input v => some v.name
  | cell v _ => some v.name
  | apply (.access .read l) _ _ => some l.name
  | _ => none

variable {E : EvalError → Prop} {env : Assignment} {args : List Term}

/-- A symbol can only be unbound. -/
theorem faults_symbolValue {name : String} (h : env name = none → E (.unbound name)) (w : Nat) :
    Faults E (symbolValue env name w) := by
  unfold symbolValue
  split
  · exact faults_ok _
  · rename_i hnone
    exact faults_error (h hnone)

/-- Arguments have the faults of each. -/
theorem faults_evalArgs (h : ∀ t ∈ args, Faults E (eval env t)) : Faults E (evalArgs env args) := by
  induction args with
  | nil =>
      rw [evalArgs]
      exact faults_ok _
  | cons t args ih =>
      obtain ⟨ht, hargs⟩ := List.forall_mem_cons.mp h
      rw [evalArgs]
      exact ht.bind fun v => (ih hargs).bind fun vs => faults_ok _

/-- Arguments that are evaluated until one decides have the faults of each. -/
theorem faults_evalUntil (h : ∀ t ∈ args, Faults E (eval env t)) (stop : Bool) :
    Faults E (evalUntil env stop args) := by
  induction args with
  | nil =>
      rw [evalUntil]
      exact faults_ok _
  | cons t args ih =>
      obtain ⟨ht, hargs⟩ := List.forall_mem_cons.mp h
      rw [evalUntil]
      refine ht.bind fun v => ?_
      split
      · exact faults_ok _
      · exact ih hargs

/-- There are no elements in a term that is no array. -/
theorem evalElement_of_leaf {t : Term} (hargs : t.args = []) (harray : ∀ v, t ≠ array v)
    {name : String} {index : Nat} :
    evalElement env name index t = .error (.selectOver t.text) := by
  unfold evalElement
  split
  · exact absurd rfl (harray _)
  · cases hargs
  · rfl

/-- The errors of a term and of its elements. The induction is over the term, whose value and whose
elements are computed from its arguments, and an element of an array from a name that is given. -/
theorem faults_eval (hE : ∀ e : EvalError, e.isUnsupported = true → E e) {t : Term}
    (hnames : ∀ u ∈ t.parts, ∀ name, u.lookup? = some name → env name = none → E (.unbound name)) :
    Faults E (eval env t) ∧ ∀ name index, (env name = none → E (.unbound name)) →
      Faults E (evalElement env name index t) := by
  have hover (u : Term) : Faults E (.error (.selectOver u.text) : Except EvalError Value) :=
    faults_error (hE _ rfl)
  have hleaf {u : Term} (hargs : u.args = []) (harray : ∀ v, u ≠ array v) (name : String)
      (index : Nat) : Faults E (evalElement env name index u) := by
    rw [evalElement_of_leaf hargs harray]
    exact hover u
  induction t using inductionOn with
  | input v =>
      refine ⟨?_, fun name index _ => hleaf rfl (by simp) name index⟩
      rw [eval]
      exact faults_symbolValue (hnames _ (mem_parts_self _) _ rfl) _
  | cell v l =>
      refine ⟨?_, fun name index _ => hleaf rfl (by simp) name index⟩
      rw [eval]
      exact faults_symbolValue (hnames _ (mem_parts_self _) _ rfl) _
  | array v =>
      refine ⟨?_, fun name index hname => ?_⟩
      · rw [eval]
        exact faults_error (hE _ rfl)
      · rw [evalElement]
        exact faults_symbolValue hname _
  | literal n w =>
      refine ⟨?_, fun name index _ => hleaf rfl (by simp) name index⟩
      rw [eval]
      exact faults_ok _
  | truth b =>
      refine ⟨?_, fun name index _ => hleaf rfl (by simp) name index⟩
      rw [eval]
      exact faults_ok _
  | apply head args w ih =>
      have hsub (t : Term) (ht : t ∈ args) :=
        ih t ht fun u hu => hnames u (mem_parts_apply ht hu)
      have hargs : ∀ t ∈ args, Faults E (eval env t) := fun t ht => (hsub t ht).1
      constructor
      · unfold eval
        split <;> rename_i heq <;> cases heq
        · exact faults_error (hE _ rfl)
        · exact faults_error (hE _ rfl)
        · refine (hargs _ (by simp)).bind fun i => (hsub _ (by simp)).2 _ _ ?_
          exact hnames _ (mem_parts_self _) _ rfl
        · refine (hargs _ (by simp)).bind fun v => ?_
          split
          · exact hargs _ (by simp)
          · exact hargs _ (by simp)
        · refine (hargs _ (by simp)).bind fun v => ?_
          split
          · exact hargs _ (by simp)
          · exact faults_ok _
        · rw [evalAll_eq_evalUntil]
          exact faults_evalUntil hargs false
        · rw [evalAny_eq_evalUntil]
          exact faults_evalUntil hargs true
        · split
          · exact (faults_evalArgs hargs).bind fun vs => faults_ok _
          · exact faults_error (hE _ rfl)
      · intro name index hname
        unfold evalElement
        split
        · rename_i heq
          cases heq
        · rename_i heq
          cases heq
          refine (hargs _ (by simp)).bind fun i => ?_
          split
          · exact hargs _ (by simp)
          · exact (hsub _ (by simp)).2 _ _ hname
        · exact hover _

end Term

namespace Constraint

variable {E : EvalError → Prop} {env : Assignment}

/-- A constraint has the faults of its term, or is no boolean. -/
theorem faults_holds {c : Constraint} (h : Faults E (c.term.eval env))
    (hboolean : E (.notBoolean c.index)) : Faults E (c.holds env) := by
  refine h.bind fun v => ?_
  cases v with
  | bool b => exact faults_ok b
  | bits n w => exact faults_error hboolean

/-- Constraints have the faults of each. -/
theorem faults_allHold {cs : List Constraint} (h : ∀ c ∈ cs, Faults E (c.holds env)) :
    Faults E (allHold env cs) := by
  induction cs with
  | nil => exact faults_ok true
  | cons c cs ih =>
      obtain ⟨hc, hcs⟩ := List.forall_mem_cons.mp h
      refine hc.bind fun b => ?_
      cases b with
      | true => exact ih hcs
      | false => exact faults_ok false

end Constraint

end Pathwise
