import Pathwise.Proofs.Oracle.Pairing

/-!
# Samples bind all symbols

What the constraints of a path look up are names of its inputs and of its locations, and a sample of
the paired symbols has a number for each of them. So a path cannot be evaluated on a sample only
where it has a term that is not supported.

* **Constraints** (`Sampling.faults_holds_bindings`): on a sample, no constraint finds a symbol
  without a value. A select is evaluated under the name of its location, which is a name of the path
  wherever it was converted.
* **Answers** (`Sampling.exists_cause_of_compareOn`): the errors of the oracle are errors of
  constraints on samples.
-/

namespace Pathwise

/-- The wording of every other error says that an expression is not supported. -/
theorem EvalError.exists_message {e : EvalError} (h : e.isUnbound = false) :
    ∃ s, e.message = s ++ ": unsupported expression" := by
  cases e with
  | unbound name => cases h
  | arrayValue name =>
      refine ⟨"array " ++ name ++ " used as a value", ?_⟩
      simp [message, String.append_assoc]
  | unknownOperator name => exact ⟨"operator " ++ name, rfl⟩
  | storeValue => exact ⟨"store used as a value", rfl⟩
  | selectOver t => exact ⟨"select over " ++ t, rfl⟩
  | notBoolean i =>
      refine ⟨"constraint " ++ toString i ++ " is not boolean", ?_⟩
      simp [message, String.append_assoc]

namespace Sampling

variable {E : EvalError → Prop} {symbols : List Symbol}

/-- On a sample of the symbols of a path, no constraint finds a symbol without a value. -/
theorem faults_holds_bindings {p : Path} (hp : p.WellFormed) {side : Symbol → Option String}
    (hnames : (symbols.filterMap side).Perm p.symbolNames) {rng : Generator} {a b : Profile}
    {limit : Nat} {choice : List Nat}
    (hchoice : choice ∈ choices rng ((Symbol.candidates a b symbols).map List.length) limit)
    {c : Constraint} (hc : c ∈ p.constraints) :
    Faults (·.isUnbound = false)
      (c.holds (assignment (bindings side symbols (Symbol.candidates a b symbols) choice))) := by
  have hcandidates : (Symbol.candidates a b symbols).length = symbols.length := by
    simp [Symbol.candidates]
  have hlength := length_of_mem_choices hchoice
  refine Constraint.faults_holds (Term.faults_eval ?_ ?_).1 rfl
  · intro e he
    cases e with
    | unbound name => cases he
    | _ => rfl
  · intro u hu name hname hnone
    have hmem := hnames.mem_iff.mpr (hp.lookup_mem hc hu hname)
    obtain ⟨n, hn⟩ := exists_assignment hcandidates hlength hmem
    cases hnone.symm.trans hn

/-- A path that cannot be evaluated on a sample is named, with a cause from one of its
constraints. -/
theorem exists_cause_of_verdictOn {p : Path} {bound : List (String × Nat)} {e : OracleError}
    (hfaults : ∀ c ∈ p.constraints, Faults E (c.holds (assignment bound)))
    (h : verdictOn p bound = .error e) : ∃ cause, e = .notEvaluable p.label cause ∧ E cause := by
  unfold verdictOn at h
  split at h
  · cases h
  · rename_i cause hcause
    cases h
    exact ⟨cause, rfl, Constraint.faults_allHold hfaults cause hcause⟩

/-- If samples are compared with an error, a constraint could not be evaluated on one of them. -/
theorem exists_cause_of_compareOn {a b : Path} {candidates choices : List (List Nat)}
    {e : OracleError}
    (ha : ∀ choice ∈ choices, ∀ c ∈ a.constraints,
      Faults E (c.holds (assignment (bindings (·.a) symbols candidates choice))))
    (hb : ∀ choice ∈ choices, ∀ c ∈ b.constraints,
      Faults E (c.holds (assignment (bindings (·.b) symbols candidates choice))))
    (h : (compareOn a b symbols candidates choices).error = some e) :
    ∃ p cause, (p = a ∨ p = b) ∧ e = .notEvaluable p.label cause ∧ E cause := by
  induction choices with
  | nil => cases h
  | cons choice rest ih =>
      obtain ⟨hfirstA, hrestA⟩ := List.forall_mem_cons.mp ha
      obtain ⟨hfirstB, hrestB⟩ := List.forall_mem_cons.mp hb
      unfold compareOn at h
      split at h
      · rename_i hx
        cases h
        obtain ⟨cause, he, hcause⟩ := exists_cause_of_verdictOn hfirstA hx
        exact ⟨a, cause, .inl rfl, he, hcause⟩
      · split at h
        · rename_i hy
          cases h
          obtain ⟨cause, he, hcause⟩ := exists_cause_of_verdictOn hfirstB hy
          exact ⟨b, cause, .inr rfl, he, hcause⟩
        · split at h
          · exact ih hrestA hrestB h
          · cases h

/-- Samples of the symbols of two paths leave no symbol without a value. -/
structure Binds (a b : Path) (symbols : List Symbol) : Prop where
  /-- No constraint of the first path fails for want of a value. -/
  left : let candidates := Symbol.candidates (.ofPath a) (.ofPath b) symbols
    ∀ rng limit, ∀ choice ∈ choices rng (candidates.map List.length) limit,
      ∀ c ∈ a.constraints, ∀ name,
      c.holds (assignment (bindings (·.a) symbols candidates choice)) ≠ .error (.unbound name)
  /-- No constraint of the second path fails for want of a value. -/
  right : let candidates := Symbol.candidates (.ofPath a) (.ofPath b) symbols
    ∀ rng limit, ∀ choice ∈ choices rng (candidates.map List.length) limit,
      ∀ c ∈ b.constraints, ∀ name,
      c.holds (assignment (bindings (·.b) symbols candidates choice)) ≠ .error (.unbound name)
  /-- If the context goes on, the oracle fails at an unsupported expression of one of the paths. -/
  error : ∀ rng limit ctx e, (answer rng limit ctx (.ofPath a) (.ofPath b)).error = some e →
    (ctx = .cancelled ∧ e = .cancelled) ∨
      ∃ p cause, (p = a ∨ p = b) ∧ e = .notEvaluable p.label cause ∧ cause.isUnbound = false ∧
        ∃ s, cause.message = s ++ ": unsupported expression"

/-- **The sampling oracle never meets an unbound symbol.** -/
theorem binds_of_pair {a b : Path} (ha : a.Accepted) (hb : b.Accepted) {symbols : List Symbol}
    (h : Symbol.pair a b = .ok symbols) : Binds a b symbols := by
  obtain ⟨hnamesA, hnamesB⟩ := Symbol.names_of_pair ha.wellFormed hb.wellFormed h
  refine ⟨?_, ?_, ?_⟩
  · intro candidates rng limit choice hchoice c hc name hunbound
    cases faults_holds_bindings ha.wellFormed hnamesA hchoice hc _ hunbound
  · intro candidates rng limit choice hchoice c hc name hunbound
    cases faults_holds_bindings hb.wellFormed hnamesB hchoice hc _ hunbound
  · intro rng limit ctx e he
    simp only [answer, Profile.path_ofPath, h] at he
    cases ctx with
    | cancelled =>
        cases he
        exact .inl ⟨rfl, rfl⟩
    | live =>
        obtain ⟨p, cause, hp, hcause, hbound⟩ := exists_cause_of_compareOn
          (fun _ hchoice _ => faults_holds_bindings ha.wellFormed hnamesA hchoice)
          (fun _ hchoice _ => faults_holds_bindings hb.wellFormed hnamesB hchoice) he
        exact .inr ⟨p, cause, hp, hcause, hbound, EvalError.exists_message hbound⟩

/-- The select goes through a store at another index to an element that no symbol declares. The
oracle fails, but at the unknown operator of the other path. -/
theorem binds_of_pair_store :
    let src := "(declare-const m (Array (_ BitVec 1) (_ BitVec 1)))
      (assert (= (select (store m #b0 #b1) #b1) #b1))"
    ∃ a b symbols, Path.parse src "a" = .ok a ∧ Path.parse "(assert (f true))" "b" = .ok b ∧
      Symbol.pair a b = .ok symbols ∧ symbols.length = 2 ∧
      (answer .congruential defaultLimit .live (.ofPath a) (.ofPath b)).error =
        some (.notEvaluable b.label (.unknownOperator "f")) ∧
      Binds a b symbols := by
  intro src
  have hfacts : (Path.parse src "a").toOption.any (fun a =>
      (Path.parse "(assert (f true))" "b").toOption.any fun b =>
        (Symbol.pair a b).toOption.any fun symbols =>
          symbols.length == 2 && symbols.all (·.width == 1) &&
            (compareOn a b symbols (List.replicate symbols.length [0, 1])
              (allChoices (List.replicate symbols.length 2))).error ==
                some (.notEvaluable b.label (.unknownOperator "f"))) = true := by
    decide +kernel
  obtain ⟨a, ha, hfacts⟩ := Path.exists_of_parse hfacts
  obtain ⟨b, hb, hfacts⟩ := Path.exists_of_parse hfacts
  obtain ⟨symbols, hpair, hfacts⟩ := Path.exists_ok_of_any hfacts
  simp only [Bool.and_eq_true, List.all_eq_true, beq_iff_eq] at hfacts
  obtain ⟨⟨hlength, hbits⟩, herror⟩ := hfacts
  have hbinds := binds_of_pair (.of_parse ha) (.of_parse hb) hpair
  refine ⟨a, b, symbols, ha, hb, hpair, hlength, ?_, hbinds⟩
  rw [answer_bits _ hpair hbits (by rw [hlength]; decide)]
  exact herror

end Sampling

end Pathwise
