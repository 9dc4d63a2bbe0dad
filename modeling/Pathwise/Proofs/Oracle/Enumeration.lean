import Pathwise.Oracle.Sampling
import Pathwise.Proofs.Oracle.Choices

/-!
# Taking all samples

If there are few enough candidates, the sampling oracle goes through all ways of choosing one for
each symbol. What these samples are, and what comparing two paths on them says.

* **Choices** (`exists_choice_iff`): the choices are all lists of indices below the counts, so that
  the samples are all lists of candidates.
* **Assignments** (`Path.sampled_eq_some`, `Path.assignment_bindings`): a sample binds each input to
  its value, because no two inputs of a path have the same name.
* **Comparison** (`compareOn_spec`): the paths agree on some samples exactly if none of these
  separates them, provided that all constraints can be evaluated.
-/

namespace Pathwise

namespace Sampling

/-! ### Choices -/

/-- The candidates that a choice takes. -/
def sample (candidates : List (List Nat)) (choice : List Nat) : List Nat :=
  List.zipWith (fun values i => values.getD i 0) candidates choice

/-- The samples are all lists with one candidate for each symbol. -/
theorem exists_choice_iff {candidates : List (List Nat)} {values : List Nat} :
    (∃ choice ∈ allChoices (candidates.map List.length), sample candidates choice = values) ↔
      List.Forall₂ (· ∈ ·) values candidates := by
  induction candidates generalizing values with
  | nil => simp [allChoices, sample, eq_comm]
  | cons c candidates ih =>
      simp only [List.map_cons, mem_allChoices_iff, List.forall₂_cons_right_iff] at ih ⊢
      constructor
      · rintro ⟨_, ⟨i, rest, hi, hrest, rfl⟩, rfl⟩
        refine ⟨c.getD i 0, sample candidates rest, ?_, ih.mp ⟨rest, hrest, rfl⟩, rfl⟩
        rw [List.getD_eq_getElem?_getD, List.getElem?_eq_getElem hi]
        exact List.getElem_mem hi
      · rintro ⟨x, values, hx, hvalues, rfl⟩
        obtain ⟨rest, hrest, rfl⟩ := ih.mpr hvalues
        obtain ⟨i, hi, rfl⟩ := List.getElem_of_mem hx
        refine ⟨i :: rest, ⟨i, rest, hi, hrest, rfl⟩, ?_⟩
        simp [sample, List.getElem?_eq_getElem hi]

/-- In a list of candidates, one for each symbol, a place holds a candidate of that place. -/
theorem exists_getElem?_of_forall₂ {candidates : List (List Nat)} {values : List Nat}
    (h : List.Forall₂ (· ∈ ·) values candidates) {i : Nat} {c : List Nat}
    (hc : candidates[i]? = some c) : ∃ r ∈ c, values[i]? = some r := by
  induction h generalizing i with
  | nil => simp at hc
  | @cons x c' values candidates hx _ ih =>
      cases i with
      | zero =>
          obtain rfl : c' = c := by simpa using hc
          exact ⟨x, hx, rfl⟩
      | succ i => exact ih (by simpa using hc)

/-- Suitable candidates for each place form a list. -/
theorem exists_forall₂_of_places {candidates : List (List Nat)} {P : Nat → Nat → Prop}
    (h : ∀ (i : Nat) (c : List Nat), candidates[i]? = some c → ∃ r ∈ c, P i r) :
    ∃ values, List.Forall₂ (· ∈ ·) values candidates ∧
      ∀ (i r : Nat), values[i]? = some r → P i r := by
  induction candidates generalizing P with
  | nil => exact ⟨[], .nil, by simp⟩
  | cons c candidates ih =>
      obtain ⟨r, hr, hP⟩ := h 0 c rfl
      obtain ⟨values, hvalues, hrest⟩ := ih fun i c' hc' => h (i + 1) c' (by simpa using hc')
      refine ⟨r :: values, .cons hr hvalues, fun i s hs => ?_⟩
      cases i with
      | zero =>
          obtain rfl : r = s := by simpa using hs
          exact hP
      | succ i => exact hrest i s (by simpa using hs)

/-! ### Assignments -/

/-- Where all symbols have a name on one side, a choice binds these names to the sample. -/
theorem bindings_eq {side : Symbol → Option String} {symbols : List Symbol} {names : List String}
    (h : symbols.map side = names.map some) (candidates : List (List Nat)) (choice : List Nat) :
    bindings side symbols candidates choice
      = (names.zip (sample candidates choice)).reverse := by
  unfold bindings sample
  congr 1
  induction symbols generalizing names candidates choice with
  | nil =>
      obtain rfl : names = [] := by simpa using h.symm
      simp
  | cons s symbols ih =>
      obtain _ | ⟨name, names⟩ := names
      · simp at h
      obtain ⟨hs, hsymbols⟩ : side s = some name ∧ symbols.map side = names.map some := by
        simpa using h
      cases candidates with
      | nil => simp
      | cons c candidates =>
          cases choice with
          | nil => simp
          | cons i choice =>
              simp only [List.zip_cons_cons, List.zipWith_cons_cons, List.filterMap_cons, hs,
                Option.map_some, ih hsymbols candidates choice]

/-- Where names are different, an entry is found by its name. -/
theorem lookup_eq_some_of_mem {entries : List (String × Nat)} {name : String} {x : Nat}
    (hnodup : (entries.map (·.1)).Nodup) (h : (name, x) ∈ entries) :
    entries.lookup name = some x := by
  induction entries with
  | nil => cases h
  | cons e entries ih =>
      obtain ⟨other, y⟩ := e
      simp only [List.map_cons, List.nodup_cons] at hnodup
      rcases List.mem_cons.mp h with heq | hmem
      · cases heq
        exact List.lookup_cons_self
      · have hne : name ≠ other := by
          rintro rfl
          exact hnodup.1 (List.mem_map.mpr ⟨(name, x), hmem, rfl⟩)
        rw [List.lookup_cons, beq_eq_false_iff_ne.mpr hne]
        exact ih hnodup.2 hmem

end Sampling

namespace Path

/-- The assignment that gives the inputs of a path some values, in their order. -/
def sampled (p : Path) (values : List Nat) : Assignment :=
  Sampling.assignment ((p.inputs.map (·.name)).zip values).reverse

/-- An input has the sampled value at its place. -/
theorem sampled_eq_some {p : Path} (hnames : (p.inputs.map (·.name)).Nodup) {values : List Nat}
    (hlen : p.inputs.length = values.length) {i : Nat} {v : Variable} {x : Nat}
    (hv : p.inputs[i]? = some v) (hx : values[i]? = some x) : p.sampled values v.name = some x := by
  refine Sampling.lookup_eq_some_of_mem ?_ ?_
  · rw [List.map_reverse, List.nodup_reverse, List.map_fst_zip (by simp [hlen])]
    exact hnames
  · rw [List.mem_reverse]
    refine List.mem_of_getElem? (i := i) ?_
    rw [List.getElem?_zip_eq_some, List.getElem?_map, hv]
    exact ⟨rfl, hx⟩

/-- A choice of candidates for symbols that are named after the inputs of a path is the sample. -/
theorem assignment_bindings {p : Path} {side : Symbol → Option String} {symbols : List Symbol}
    (h : symbols.map side = (p.inputs.map (·.name)).map some) (candidates : List (List Nat))
    (choice : List Nat) :
    Sampling.assignment (Sampling.bindings side symbols candidates choice)
      = p.sampled (Sampling.sample candidates choice) := by
  rw [Sampling.bindings_eq h, sampled]

end Path

namespace Sampling

/-! ### Comparison -/

/-- Where all constraints can be evaluated, there is an answer, and it is whether the constraints of
the two paths agree on all samples. -/
theorem compareOn_spec {a b : Path} {symbols : List Symbol} {candidates choices : List (List Nat)}
    {envA envB : List Nat → Assignment}
    (henvA : ∀ c, assignment (bindings (·.a) symbols candidates c) = envA c)
    (henvB : ∀ c, assignment (bindings (·.b) symbols candidates c) = envB c)
    (ha : ∀ c ∈ choices, ∃ x, Constraint.allHold (envA c) a.constraints = .ok x)
    (hb : ∀ c ∈ choices, ∃ y, Constraint.allHold (envB c) b.constraints = .ok y) :
    (compareOn a b symbols candidates choices).error = none ∧
      ((compareOn a b symbols candidates choices).value = true ↔
        ∀ c ∈ choices, Constraint.allHold (envA c) a.constraints
          = Constraint.allHold (envB c) b.constraints) := by
  induction choices with
  | nil => simp [compareOn, Oracle.Answer.ok]
  | cons c choices ih =>
      obtain ⟨⟨x, hx⟩, ha⟩ := List.forall_mem_cons.mp ha
      obtain ⟨⟨y, hy⟩, hb⟩ := List.forall_mem_cons.mp hb
      simp only [compareOn, verdictOn, henvA, henvB, hx, hy, List.forall_mem_cons,
        Except.ok.injEq]
      by_cases hxy : x = y
      · simpa only [hxy, if_true, true_and] using ih ha hb
      · simp [hxy, Oracle.Answer.ok]

end Sampling

end Pathwise
