import Pathwise.Proofs.Path.Provenance
import Pathwise.Proofs.Term.Booleans

/-!
# Constraints and assertions

The constraints of a path are the conjuncts of what its source asserts. What is asserted is checked
to be boolean, and what comes out of splitting it is not checked again.

* **Assertions** (`Path.assertions`): the terms that the commands of a source assert, one after the
  other, before they are split.
* **Steps** (`Builder.KeepsConstraints`, `Builder.constraintTerms_command`): converting expressions
  and declaring symbols add no constraints, so that a command adds the conjuncts of what it asserts.
* **Runs** (`Path.terms_of_parse`): the constraints of a path are all conjuncts of all assertions.
* **Sorts** (`Path.constraints_boolean_iff`): where other operators are applied to operands of their
  sorts, the constraints are boolean or apply an unknown operator exactly if all conjuncts could
  have been asserted by themselves.
-/

namespace Pathwise.Path

namespace Builder

variable {α : Type} {b b' : Builder}

/-! ### Steps that add no constraints -/

/-- A step after which the constraints are those before it. -/
def KeepsConstraints (m : Build α) : Prop :=
  ∀ b a b', m.run b = .ok (a, b') → b'.constraints = b.constraints

/-- Converting an expression asserts nothing. -/
theorem keepsConstraints_convert (scope : Scope) (e : SExpr) :
    KeepsConstraints (convert scope e) := by
  intro b t b' hrun
  exact (kept_of_convert hrun).constraints

/-- A declaration asserts nothing. -/
theorem keepsConstraints_declare (line : Nat) (name sort : SExpr) :
    KeepsConstraints (declare line name sort) := by
  intro b _ b' hrun
  obtain ⟨l, v, -, -, -, ⟨-, rfl⟩ | ⟨m, -, -, -, rfl⟩⟩ := declare_cases hrun
  · rfl
  · rfl

/-! ### Assertions -/

/-- The term that a command asserts, if it asserts one. -/
def asserted (b : Builder) (node : SExpr) : List Term :=
  match node.items with
  | [_, e] => if node.head = "assert" then ((convert [] e).run b).toOption.toList.map (·.1) else []
  | _ => []

/-- The terms that commands assert, each after those before it. -/
def assertionsFrom (b : Builder) : List SExpr → List Term
  | [] => []
  | e :: es =>
    match (command e).run b with
    | .ok (_, b') => b.asserted e ++ assertionsFrom b' es
    | .error _ => []

/-- The terms of the constraints so far. -/
def constraintTerms (b : Builder) : List Term :=
  b.constraints.map (·.term)

/-- An assertion asserts the term of its expression. -/
theorem asserted_of_assert {line : Nat} {first e : SExpr} {t : Term} {c : Builder}
    (hnode : (SExpr.list line [first, e]).head = "assert")
    (h : (convert [] e).run b = .ok (t, c)) : b.asserted (.list line [first, e]) = [t] := by
  simp [asserted, SExpr.items, hnode, h, Except.toOption]

/-- No other command asserts anything. -/
theorem asserted_of_ne {node : SExpr} (h : node.head ≠ "assert") : b.asserted node = [] := by
  unfold asserted
  split
  · rw [if_neg h]
  · rfl

/-- A step that asserts nothing leaves the terms of the constraints. -/
theorem KeepsConstraints.constraintTerms_eq {m : Build α} (hm : KeepsConstraints m) {a : α}
    (h : m.run b = .ok (a, b')) : b'.constraintTerms = b.constraintTerms := by
  rw [constraintTerms, constraintTerms, hm b a b' h]

/-- What is asserted has been checked, and adds its conjuncts. -/
theorem constraintTerms_assert {line : Nat} {t : Term}
    (h : (assert line t).run b = .ok ((), b')) :
    t.isAssertable = true ∧ b'.constraintTerms = b.constraintTerms ++ conjuncts t := by
  obtain ⟨hchecked, rfl⟩ := assert_cases h
  refine ⟨?_, ?_⟩
  · rcases hchecked with ⟨name, indices, args, w, rfl⟩ | ⟨hwidth, harray⟩
    · rfl
    · simp [Term.isAssertable, hwidth, harray]
  · rw [constraintTerms, List.map_append, map_term_numberedFrom]
    rfl

/-- A command adds the conjuncts of what it asserts. -/
theorem constraintTerms_command {node : SExpr} (h : (command node).run b = .ok ((), b')) :
    (∀ t ∈ b.asserted node, t.isAssertable = true) ∧
      b'.constraintTerms = b.constraintTerms ++ (b.asserted node).flatMap conjuncts := by
  rcases command_cases h with ⟨hnode, line, name, sort, -, hdeclare⟩ |
    ⟨hnode, line, first, e, t, c, rfl, hconvert, hassert⟩ | ⟨hnode, rfl⟩
  · rw [asserted_of_ne hnode, (keepsConstraints_declare line name sort).constraintTerms_eq hdeclare]
    simp
  · obtain ⟨hchecked, hterms⟩ := constraintTerms_assert hassert
    have hsame := (keepsConstraints_convert [] e).constraintTerms_eq hconvert
    rw [asserted_of_assert hnode hconvert, hterms, hsame]
    simpa using hchecked
  · rw [asserted_of_ne hnode]
    simp

/-- Commands add the conjuncts of what they assert, one after the other. -/
theorem constraintTerms_commands {nodes : List SExpr}
    (h : (commands nodes).run b = .ok ((), b')) :
    (∀ t ∈ b.assertionsFrom nodes, t.isAssertable = true) ∧
      b'.constraintTerms = b.constraintTerms ++ (b.assertionsFrom nodes).flatMap conjuncts := by
  induction nodes generalizing b with
  | nil =>
      cases h
      simp [assertionsFrom]
  | cons node nodes ih =>
      rw [commands] at h
      obtain ⟨_, c, hfirst, hrest⟩ := exists_of_run_bind h
      obtain ⟨hchecked, hterms⟩ := constraintTerms_command hfirst
      obtain ⟨hlater, hrest⟩ := ih hrest
      simp only [assertionsFrom, hfirst]
      refine ⟨fun t ht => (List.mem_append.mp ht).elim (hchecked t) (hlater t), ?_⟩
      rw [hrest, hterms, List.flatMap_append, List.append_assoc]

end Builder

/-- The terms that a source asserts, before conjunctions are split. -/
def assertions (src : String) : List Term :=
  match SExpr.readAll (bodyOf src) with
  | .ok nodes => Builder.empty.assertionsFrom nodes
  | .error _ => []

/-- The constraints of a path are the conjuncts of what its source asserts, and that has been
checked. -/
theorem terms_of_parse {src name : String} {p : Path} (h : parse src name = .ok p) :
    (∀ t ∈ assertions src, t.isAssertable = true) ∧
      p.constraints.map (·.term) = (assertions src).flatMap conjuncts := by
  obtain ⟨nodes, b, hread, hrun, -, -, hconstraints⟩ := exists_commands_of_parse h
  have hassertions : assertions src = Builder.empty.assertionsFrom nodes := by
    simp only [assertions, hread]
  rw [hassertions, hconstraints]
  exact Builder.constraintTerms_commands hrun

/-! ### Booleans -/

/-- What is no conjunction is its only conjunct. -/
theorem conjuncts_of_not_applies {t : Term} (h : t.applies .and = false) : conjuncts t = [t] := by
  unfold conjuncts
  split
  · cases h
  · rfl

/-- **Only boolean constraints get in if every conjunct of an asserted conjunction could have been
asserted by itself, and not otherwise.** The other operators are applied to operands of their
sorts. -/
theorem constraints_boolean_iff {src name : String} {p : Path} (h : parse src name = .ok p)
    (hagree : ∀ t ∈ assertions src, t.OperandsAgree) :
    (∀ c ∈ p.constraints, c.term.isUnknown = true ∨ c.IsBoolean) ↔
      ∀ t ∈ assertions src, t.applies .and = true → ∀ u ∈ conjuncts t, u.isAssertable = true := by
  obtain ⟨hchecked, hterms⟩ := terms_of_parse h
  constructor
  · intro hboolean t ht _ u hu
    have hmem : u ∈ p.constraints.map (·.term) := by
      rw [hterms]
      exact List.mem_flatMap.mpr ⟨t, ht, hu⟩
    obtain ⟨c, hc, rfl⟩ := List.mem_map.mp hmem
    rcases hboolean c hc with hunknown | hsort
    · simp [Term.isAssertable, hunknown]
    · simp [Term.isAssertable, hsort.width_eq, hsort.not_array]
  · intro hconjuncts c hc
    have hmem : c.term ∈ (assertions src).flatMap conjuncts := by
      rw [← hterms]
      exact List.mem_map_of_mem hc
    obtain ⟨t, ht, hconjunct⟩ := List.mem_flatMap.mp hmem
    have hassertable : c.term.isAssertable = true := by
      cases hand : t.applies .and with
      | true => exact hconjuncts t ht hand c.term hconjunct
      | false =>
          -- what is not split is what was checked
          rw [conjuncts_of_not_applies hand, List.mem_singleton] at hconjunct
          rw [hconjunct]
          exact hchecked t ht
    have hpart := Builder.mem_parts_of_mem_conjuncts t _ hconjunct
    have hagrees : c.term.OperandsAgree := fun u hu =>
      hagree t ht u (Term.parts_subset t _ hpart hu)
    have hwf := wellFormed_of_parse h
    exact Constraint.isUnknown_or_isBoolean (fun v hv => (hwf.widths v hv).1) (hwf.terms c hc)
      hagrees hassertable

/-- A conjunction of an implication, a conditional, an unknown operator and an equation of
bit-vectors is split into boolean constraints. -/
theorem constraints_boolean_implication :
    let src := "(declare-const x (_ BitVec 8))
(assert (and (=> (bvult x #x05) (ite (= x #x00) true (f x))) (f x) (= (bvnot x) x)))"
    (∀ t ∈ assertions src, t.OperandsAgree) ∧
      ∃ p, parse src "p" = .ok p ∧ p.constraints.length = 3 ∧
        ∀ c ∈ p.constraints, c.term.isUnknown = true ∨ c.IsBoolean := by
  intro src
  have hall : ((assertions src).all fun t =>
      t.parts.all Term.operandsAgree && (conjuncts t).all Term.isAssertable) = true := by
    decide +kernel
  have hfacts : (parse src "p").toOption.any (fun p => p.constraints.length == 3) = true := by
    decide +kernel
  simp only [List.all_eq_true, Bool.and_eq_true] at hall
  have hagree : ∀ t ∈ assertions src, t.OperandsAgree := fun t ht => (hall t ht).1
  obtain ⟨p, hp, hlength⟩ := exists_of_parse hfacts
  refine ⟨hagree, p, hp, beq_iff_eq.mp hlength, ?_⟩
  exact (constraints_boolean_iff hp hagree).mpr fun t ht _ => (hall t ht).2

/-- A source that is accepted and has a constraint that is neither boolean nor applies an unknown
operator. -/
def AdmitsNonBoolean (src : String) : Prop :=
  ∃ p, parse src "p" = .ok p ∧ ∃ c ∈ p.constraints, ¬ (c.term.isUnknown = true ∨ c.IsBoolean)

/-- A source with a constraint that is reported not to be boolean where all symbols are zero. -/
theorem admitsNonBoolean_of_any {src : String} (h : (parse src "p").toOption.any (fun p =>
      p.constraints.any fun c =>
        !c.term.isUnknown && (c.holds fun _ => some 0) matches .error (.notBoolean _)) = true) :
    AdmitsNonBoolean src := by
  obtain ⟨p, hp, hfact⟩ := exists_of_parse h
  simp only [List.any_eq_true, Bool.and_eq_true, Bool.not_eq_true'] at hfact
  obtain ⟨c, hc, hknown, hrefused⟩ := hfact
  refine ⟨p, hp, c, hc, ?_⟩
  rintro (hunknown | hboolean)
  · rw [hknown] at hunknown
    cases hunknown
  · split at hrefused
    · rename_i i hholds
      exact hboolean.holds_ne _ i hholds
    · cases hrefused

/-- Four sources that are accepted although a constraint is not boolean: a conjunct that could not
have been asserted, and one source for each way in which operands can fail to agree. -/
theorem constraints_not_boolean :
    AdmitsNonBoolean "(declare-const x (_ BitVec 8)) (assert (and (bvnot x)))" ∧
      AdmitsNonBoolean "(declare-const x (_ BitVec 8)) (assert (=> true x))" ∧
      AdmitsNonBoolean "(declare-const x (_ BitVec 8)) (assert (ite false true x))" ∧
      AdmitsNonBoolean "(assert ((_ zero_extend 0) true))" := by
  refine ⟨admitsNonBoolean_of_any ?_, admitsNonBoolean_of_any ?_, admitsNonBoolean_of_any ?_,
    admitsNonBoolean_of_any ?_⟩
  · decide +kernel
  · decide +kernel
  · decide +kernel
  · decide +kernel

end Pathwise.Path
