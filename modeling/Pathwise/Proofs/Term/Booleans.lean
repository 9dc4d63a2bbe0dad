import Pathwise.Layer.Basic
import Pathwise.Proofs.Path.Guarantees
import Pathwise.Proofs.Term.Faults
import Pathwise.Term.Eval

/-!
# Terms that evaluate to booleans

The width of a term tells booleans from bit-vectors, as long as operators are applied to operands of
their sorts. Where they are not, a term without a width can evaluate to a bit-vector.

* **Operands** (`Term.operandsAgree`): what the operands of an application have to be for that.
  Implications and conditionals have the value of an operand, and an operation on bit-vectors has
  the width of its operands.
* **Values** (`Term.exists_bool_of_eval`): a term without a width in which all operands agree has no
  bit-vector for a value.
* **Errors** (`Term.notRefused_eval`): evaluation does not itself report that a constraint is not
  boolean, so that this error means a bit-vector (`Constraint.exists_bits_of_holds`).
-/

namespace Pathwise

namespace Term

/-! ### Sorts by width -/

/-- Whether a term has no width, or one that says nothing because its operator is unknown. -/
def lacksWidth (t : Term) : Bool :=
  t.isUnknown || t.width == 0

/-- Whether a term can be asserted. -/
def isAssertable (t : Term) : Bool :=
  t.isUnknown || (t.width == 0 && !t.isArray)

/-- Whether the operands of an application are of the sorts that its operator takes, as far as they
decide whether its value is boolean. -/
def operandsAgree : Term → Bool
  | apply (.op .implies _) args _ => args.tail.all lacksWidth
  | apply (.op .ite _) args w => w != 0 || args.tail.all lacksWidth
  | apply (.op o _) _ w => w != 0 || !(o.isTransform || o.isStructural)
  | _ => true

/-- The operands of all applications in a term agree. -/
def OperandsAgree (t : Term) : Prop :=
  ∀ u ∈ t.parts, u.operandsAgree = true

/-- The operands in a term agree if those of its root do and those in its arguments. -/
theorem operandsAgree_iff {t : Term} :
    t.OperandsAgree ↔ t.operandsAgree = true ∧ ∀ u ∈ t.args, u.OperandsAgree :=
  forall_parts_iff

/-- What can be asserted has no width. -/
theorem lacksWidth_of_isAssertable {t : Term} (h : t.isAssertable = true) :
    t.lacksWidth = true := by
  simp only [isAssertable, lacksWidth, Bool.or_eq_true, Bool.and_eq_true] at h ⊢
  exact h.imp_right And.left

/-- A term without a width has width zero, unless its operator is not known. -/
theorem width_eq_zero {t : Term} (h : t.lacksWidth = true) (hknown : t.isUnknown = false) :
    t.width = 0 := by
  simpa [lacksWidth, hknown] using h

/-! ### Values -/

/-- A sequence of two steps that succeeds. -/
theorem exists_of_bind_eq_ok {α β : Type} {r : Except EvalError α} {f : α → Except EvalError β}
    {b : β} (h : r >>= f = .ok b) : ∃ a, r = .ok a ∧ f a = .ok b := by
  cases r with
  | error e => cases h
  | ok a => exact ⟨a, rfl, h⟩

variable {env : Assignment} {args : List Term} {v : Value}

/-- A connective evaluates to a truth value. -/
theorem exists_bool_of_evalUntil {stop : Bool} (h : evalUntil env stop args = .ok v) :
    ∃ b, v = .bool b := by
  induction args with
  | nil =>
      rw [evalUntil] at h
      cases h
      exact ⟨!stop, rfl⟩
  | cons t args ih =>
      rw [evalUntil] at h
      obtain ⟨u, -, h⟩ := exists_of_bind_eq_ok h
      split at h
      · cases h
        exact ⟨stop, rfl⟩
      · exact ih h

/-- Every operator that makes no bit-vector evaluates to a truth value. -/
theorem exists_bool_strictValue {o : Op} (ho : (o.isTransform || o.isStructural) = false)
    (indices : List Nat) (w : Nat) (vs : List Value) :
    ∃ b, strictValue o indices w vs = .bool b := by
  rcases vs with _ | ⟨x, _ | ⟨y, _ | ⟨z, vs⟩⟩⟩ <;> cases o <;>
    first | exact ⟨_, rfl⟩ | cases ho

variable {declared : List Variable} {memory : List Location}

/-- What is read from an array is as wide as its elements, which have at least one bit. -/
theorem WellFormed.read_width_pos (hwidths : ∀ v ∈ declared, 0 < v.width) {l : Location} {w : Nat}
    (hwf : (apply (.access .read l) args w).WellFormed declared memory) : 0 < w := by
  obtain ⟨-, -, a, as, x, rfl, hx, hw⟩ := hwf.fits
  have harray := (storeChain_of_arrayOf? hx).array_mem_parts
  have hdeclared : x ∈ declared := (hwf.arg List.mem_cons_self _ harray).1
  rw [hw, if_pos rfl]
  exact hwidths x hdeclared

/-- A term without a width in which all operands agree evaluates to booleans only. The induction
is over the term: implications and conditionals pass on the value of an operand. -/
theorem exists_bool_of_eval (hwidths : ∀ v ∈ declared, 0 < v.width) {t : Term}
    (hwf : t.WellFormed declared memory) (hagree : t.OperandsAgree) (ht : t.lacksWidth = true)
    (h : eval env t = .ok v) : ∃ b, v = .bool b := by
  induction t using inductionOn with
  | input x =>
      have hpos := hwidths x hwf.fits.1
      have hw : x.width = 0 := width_eq_zero ht rfl
      omega
  | cell x l =>
      have hpos := hwidths x hwf.fits.1
      have hw : x.width = 0 := width_eq_zero ht rfl
      omega
  | array x => cases h
  | literal n w =>
      have hpos : 0 < w := hwf.fits.1
      have hw : w = 0 := width_eq_zero ht rfl
      omega
  | truth b =>
      cases h
      exact ⟨b, rfl⟩
  | apply head args w ih =>
      obtain ⟨hroot, hargs⟩ := operandsAgree_iff.mp hagree
      have hpass {u : Term} (hu : u ∈ args) (hlacks : u.lacksWidth = true)
          (h : eval env u = .ok v) : ∃ b, v = .bool b :=
        ih u hu (hwf.arg hu) (hargs u hu) hlacks h
      unfold eval at h
      split at h <;> rename_i heq <;> cases heq
      · cases h
      · cases h
      · rename_i l a index rest
        have hpos := hwf.read_width_pos hwidths
        have hw : w = 0 := width_eq_zero ht rfl
        omega
      · rename_i indices c a b
        have hw : w = 0 := width_eq_zero ht rfl
        have hbranches : a.lacksWidth = true ∧ b.lacksWidth = true := by
          simpa [operandsAgree, hw] using hroot
        obtain ⟨u, -, h⟩ := exists_of_bind_eq_ok h
        split at h
        · exact hpass (by simp) hbranches.1 h
        · exact hpass (by simp) hbranches.2 h
      · rename_i indices a b
        have hconsequent : b.lacksWidth = true := by simpa [operandsAgree] using hroot
        obtain ⟨u, -, h⟩ := exists_of_bind_eq_ok h
        split at h
        · exact hpass (by simp) hconsequent h
        · cases h
          exact ⟨true, rfl⟩
      · rw [evalAll_eq_evalUntil] at h
        exact exists_bool_of_evalUntil h
      · rw [evalAny_eq_evalUntil] at h
        exact exists_bool_of_evalUntil h
      · split at h
        · rename_i o indices _ _ _ _ _ _ _
          have hw : w = 0 := width_eq_zero ht rfl
          have ho : (o.isTransform || o.isStructural) = false := by
            cases o <;> first | rfl | simpa [operandsAgree, hw] using hroot
          obtain ⟨vs, -, h⟩ := exists_of_bind_eq_ok h
          cases h
          exact exists_bool_strictValue ho indices w vs
        · cases h

/-! ### Errors -/

/-- A result other than the report that a constraint is not boolean. -/
def NotRefused {α : Type} (r : Except EvalError α) : Prop :=
  ∀ i, r ≠ .error (.notBoolean i)

/-- Evaluation does not report that a constraint is not boolean. -/
theorem notRefused_eval (t : Term) : NotRefused (eval env t) := by
  have hfaults : Faults (∀ i, · ≠ .notBoolean i) (eval env t) := by
    refine (faults_eval ?_ ?_).1
    · rintro e he i rfl
      cases he
    · rintro u - name - - i ⟨⟩
  intro i h
  exact hfaults _ h i rfl

end Term

namespace Constraint

/-- A constraint of boolean sort. Whatever is assigned to symbols, it is not reported not to be
boolean. -/
structure IsBoolean (c : Constraint) : Prop where
  width_eq : c.term.width = 0
  not_array : c.term.isArray = false
  holds_ne : ∀ env i, c.holds env ≠ .error (.notBoolean i)

/-- A constraint is reported not to be boolean only if it evaluates to a bit-vector. -/
theorem exists_bits_of_holds {env : Assignment} {c : Constraint} {i : Nat}
    (h : c.holds env = .error (.notBoolean i)) : ∃ n w, c.term.eval env = .ok (.bits n w) := by
  unfold holds at h
  cases hvalue : c.term.eval env with
  | error e =>
      rw [hvalue] at h
      cases h
      exact absurd hvalue (c.term.notRefused_eval i)
  | ok v =>
      cases v with
      | bool b =>
          rw [hvalue] at h
          cases h
      | bits n w => exact ⟨n, w, rfl⟩

/-- A constraint that can be asserted and in which operands agree is boolean, unless its operator is
unknown. -/
theorem isUnknown_or_isBoolean {declared : List Variable} {memory : List Location}
    (hwidths : ∀ v ∈ declared, 0 < v.width) {c : Constraint}
    (hwf : c.term.WellFormed declared memory) (hagree : c.term.OperandsAgree)
    (hc : c.term.isAssertable = true) : c.term.isUnknown = true ∨ c.IsBoolean := by
  by_cases hunknown : c.term.isUnknown = true
  · exact .inl hunknown
  · have hsort : c.term.width = 0 ∧ c.term.isArray = false := by
      simpa [Term.isAssertable, hunknown] using hc
    refine .inr ⟨hsort.1, hsort.2, fun env i hholds => ?_⟩
    obtain ⟨n, w, hvalue⟩ := exists_bits_of_holds hholds
    have hlacks := Term.lacksWidth_of_isAssertable hc
    obtain ⟨b, hb⟩ := Term.exists_bool_of_eval hwidths hwf hagree hlacks hvalue
    cases hb

end Constraint

end Pathwise
