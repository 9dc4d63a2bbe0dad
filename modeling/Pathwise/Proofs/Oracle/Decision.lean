import Pathwise.Proofs.Oracle.Cells
import Pathwise.Proofs.Oracle.Enumeration
import Pathwise.Proofs.Path.WellFormed
import Pathwise.Proofs.Profile.Access
import Pathwise.Proofs.Sorting

/-!
# Sampling as a decision procedure

If all samples are taken, and the constraints are boolean combinations of comparisons of an input
with a literal, then the answer of the sampling oracle is right for all values of the inputs, not
only for the samples.

* **Symbols** (`Symbol.pair_eq`): paths without memory whose inputs have the same widths are paired
  input by input.
* **Candidates** (`Symbol.exists_candidate`): the candidates of a symbol meet every cell that the
  literals of both paths cut out.
* **Exhaustive sampling** (`Sampling.answer_exhaustive`): the answer says whether the constraints
  agree on all lists of candidates.
* **Transfer** (`Path.exists_sample`): values of the inputs lie in the cells of a list of
  candidates, on which elementary constraints have the same truth value.
-/

namespace Pathwise

@[simp] theorem Profile.path_ofPath (p : Path) : (Profile.ofPath p).path = p := rfl

namespace Symbol

/-! ### Symbols -/

/-- The symbols of two lists of inputs, input by input. -/
def ofInputs (vs ws : List Variable) : List Symbol :=
  List.zipWith (fun v w => ⟨v.width, some v.name, some w.name⟩) vs ws

/-- Inputs of the same widths are paired in their order. -/
theorem pairInputs_eq {vs ws : List Variable} (h : vs.map (·.width) = ws.map (·.width))
    (place : Nat) : pairInputs place vs ws = .ok (ofInputs vs ws) := by
  induction vs generalizing ws place with
  | nil => rfl
  | cons v vs ih =>
      obtain _ | ⟨w, ws⟩ := ws
      · simp at h
      obtain ⟨hw, hws⟩ : v.width = w.width ∧ vs.map (·.width) = ws.map (·.width) := by simpa using h
      rw [pairInputs, if_pos hw, ih hws]
      rfl

/-- Without memory, the symbols of two paths are their inputs. -/
theorem pair_eq {a b : Path} (ha : a.memory = []) (hb : b.memory = [])
    (hwidths : a.inputs.map (·.width) = b.inputs.map (·.width)) :
    pair a b = .ok (ofInputs a.inputs b.inputs) := by
  have hlen : a.inputs.length = b.inputs.length := by simpa using congrArg List.length hwidths
  have hnames {p : Path} (hp : p.memory = []) : p.memoryNames = [] := by
    rw [Path.memoryNames, Path.namedLocations, hp]
    rfl
  rw [pair, if_neg (not_not_intro hlen), pairInputs_eq hwidths, hnames ha, hnames hb]
  simp [pairMemory, Except.map]

/-- On each side, the symbols are named after the inputs. -/
theorem map_names_ofInputs {vs ws : List Variable} (h : vs.length = ws.length) :
    (ofInputs vs ws).map (·.a) = (vs.map (·.name)).map some ∧
      (ofInputs vs ws).map (·.b) = (ws.map (·.name)).map some := by
  induction vs generalizing ws with
  | nil =>
      obtain rfl : ws = [] := List.length_eq_zero_iff.mp h.symm
      exact ⟨rfl, rfl⟩
  | cons v vs ih =>
      obtain _ | ⟨w, ws⟩ := ws
      · simp at h
      · simpa [ofInputs] using ih (Nat.succ.inj h)

/-! ### Candidates -/

/-- The literals of a path are those of the width that occur in its constraints. -/
theorem mem_literals {width n : Nat} {p : Path} :
    n ∈ literals width p ↔ ∃ c ∈ p.constraints, .literal n width ∈ c.term.parts := by
  simp only [literals, Term.parts, List.mem_flatMap, List.mem_filterMap, List.mem_map]
  refine exists_congr fun c => and_congr_right fun _ => exists_congr fun o =>
    and_congr_right fun _ => ?_
  split <;> grind

variable {a b : Profile} {place : Nat} {s : Symbol}

/-- The candidates of a symbol in the order in which they are found. -/
def unsorted (a b : Profile) (place : Nat) (s : Symbol) : List Nat :=
  firsts ((extremes s.width ++ boundaries a b place ++
    (literals s.width a.path ++ literals s.width b.path).flatMap (neighbours s.width)).map
      (· % 2 ^ s.width))

/-- Candidates are sorted. -/
theorem allCandidates_eq :
    allCandidates a b place s = (unsorted a b place s).mergeSort fun x y => x ≤ y := rfl

/-- Sorting keeps the number of candidates. -/
theorem length_allCandidates :
    (allCandidates a b place s).length = (unsorted a b place s).length := by
  rw [allCandidates_eq, List.length_mergeSort]

/-- The candidates are the extremes, the boundaries and the neighbours of literals, modulo the
width. -/
theorem mem_allCandidates {x : Nat} :
    x ∈ allCandidates a b place s ↔
      ∃ y ∈ extremes s.width ++ boundaries a b place ++
        (literals s.width a.path ++ literals s.width b.path).flatMap (neighbours s.width),
        y % 2 ^ s.width = x := by
  rw [allCandidates_eq, List.mem_mergeSort, unsorted, mem_firsts, List.mem_map]

/-- Candidates are numbers of the width. -/
theorem lt_of_mem_allCandidates {x : Nat} (h : x ∈ allCandidates a b place s) :
    x < 2 ^ s.width := by
  obtain ⟨y, -, rfl⟩ := mem_allCandidates.mp h
  exact Nat.mod_lt _ (Nat.two_pow_pos _)

/-- The candidates of a symbol meet every cell. -/
theorem exists_candidate (hs : 0 < s.width) {x : Nat} (hx : x < 2 ^ s.width) :
    ∃ r ∈ allCandidates a b place s,
      SameCell s.width (literals s.width a.path ++ literals s.width b.path) x r := by
  have hextreme {y : Nat} (hy : y ∈ extremes s.width) (hlt : y < 2 ^ s.width) :
      y ∈ allCandidates a b place s :=
    mem_allCandidates.mpr
      ⟨y, List.mem_append_left _ (List.mem_append_left _ hy), Nat.mod_eq_of_lt hlt⟩
  have hneighbour {n y : Nat} (hn : n ∈ literals s.width a.path ++ literals s.width b.path)
      (hy : y ∈ neighbours s.width n) (hlt : y < 2 ^ s.width) : y ∈ allCandidates a b place s :=
    mem_allCandidates.mpr
      ⟨y, List.mem_append_right _ (List.mem_flatMap.mpr ⟨n, hn, hy⟩), Nat.mod_eq_of_lt hlt⟩
  have hmod (k : Nat) : k % 2 ^ s.width < 2 ^ s.width := Nat.mod_lt _ (Nat.two_pow_pos _)
  exact SameCell.exists_representative hx
    (hextreme (by simp [extremes]) (Nat.two_pow_pos _))
    (hextreme (by simp [extremes]) (Nat.pow_lt_pow_right (by omega) (by omega)))
    (fun n hn => hneighbour hn (by simp [neighbours]) (hmod n))
    (fun n hn => hneighbour hn (by simp [neighbours]) (hmod (n + 1)))

/-- Candidates are in ascending order. -/
theorem pairwise_allCandidates : (allCandidates a b place s).Pairwise (· ≤ ·) := by
  have hle (x y : Nat) : decide (x ≤ y) = true ↔ id x ≤ id y := decide_eq_true_iff
  rw [allCandidates_eq]
  exact pairwise_mergeSort_of_key hle _

/-- No candidate is listed twice. -/
theorem nodup_allCandidates : (allCandidates a b place s).Nodup :=
  (List.mergeSort_perm _ _).nodup_iff.mpr (nodup_firsts _)

/-- A symbol of one bit has both values as candidates. -/
theorem allCandidates_bit (hs : s.width = 1) : allCandidates a b place s = [0, 1] := by
  have hmem (x : Nat) : x ∈ allCandidates a b place s ↔ x ∈ [0, 1] := by
    constructor
    · intro hx
      have hlt := lt_of_mem_allCandidates hx
      rw [hs] at hlt
      simp only [List.mem_cons, List.not_mem_nil, or_false]
      omega
    · intro hx
      refine mem_allCandidates.mpr ⟨x, ?_, ?_⟩
      · refine List.mem_append_left _ (List.mem_append_left _ ?_)
        rw [hs]
        exact List.mem_of_mem_take (i := 2) hx
      · rw [hs]
        revert x
        decide
  have hperm : (allCandidates a b place s).Perm [0, 1] :=
    (List.perm_ext_iff_of_nodup nodup_allCandidates (by decide)).mpr hmem
  exact hperm.eq_of_pairwise (fun x y _ _ => Nat.le_antisymm) pairwise_allCandidates (by decide)

/-- Few candidates are not thinned. -/
theorem candidates_eq {symbols : List Symbol}
    (h : ∀ e ∈ symbols.zipIdx, (allCandidates a b e.2 e.1).length ≤ maxCandidates) :
    candidates a b symbols = symbols.zipIdx.map fun e => allCandidates a b e.2 e.1 := by
  unfold candidates
  refine List.map_congr_left fun e he => ?_
  exact if_pos (h e he)

/-- Thinning leaves some candidates. -/
theorem thin_ne_nil {values : List Nat} (h : values ≠ []) : thin values ≠ [] := by
  unfold thin
  split
  · exact h
  · simp [maxCandidates]

/-- Each symbol has a candidate. -/
theorem length_candidates_pos (a b : Profile) (symbols : List Symbol) :
    ∀ n ∈ (candidates a b symbols).map List.length, 0 < n := by
  intro n hn
  obtain ⟨values, hvalues, rfl⟩ := List.mem_map.mp hn
  obtain ⟨e, -, rfl⟩ := List.mem_map.mp hvalues
  refine List.length_pos_iff.mpr (thin_ne_nil (List.ne_nil_of_mem (a := 0) ?_))
  exact mem_allCandidates.mpr ⟨0, by simp [extremes], Nat.zero_mod _⟩

/-- A single bit has both values as candidates. -/
theorem candidates_bits {symbols : List Symbol} (h : ∀ s ∈ symbols, s.width = 1) :
    candidates a b symbols = List.replicate symbols.length [0, 1] := by
  have hbit (e) (he : e ∈ symbols.zipIdx) : allCandidates a b e.2 e.1 = [0, 1] :=
    allCandidates_bit (h e.1 (List.fst_mem_of_mem_zipIdx he))
  rw [candidates_eq fun e he => by rw [hbit e he]; decide, List.map_congr_left hbit,
    List.map_const', List.length_zipIdx]

end Symbol

/-- The path that asserts some terms, one after the other. -/
def Path.ofTerms (name : String) (declared : List Variable) (memory : List Location)
    (terms : List Term) : Path where
  index := -1
  name
  source := ""
  declared
  memory
  constraints := terms.mapIdx fun i t => ⟨i, t⟩
  output := .none

namespace Sampling

/-- Symbols of one bit are sampled at both values. -/
theorem answer_bits (rng : Generator) {a b : Profile} {symbols : List Symbol} {limit : Nat}
    (hpair : Symbol.pair a.path b.path = .ok symbols) (hbits : ∀ s ∈ symbols, s.width = 1)
    (hfew : 2 ^ symbols.length ≤ limit) :
    answer rng limit .live a b
      = compareOn a.path b.path symbols (List.replicate symbols.length [0, 1])
        (allChoices (List.replicate symbols.length 2)) := by
  have hchoices : choices rng (List.replicate symbols.length 2) limit
      = allChoices (List.replicate symbols.length 2) := by
    refine choices_eq_allChoices rng ?_ ?_
    · intro n hn
      rw [List.eq_of_mem_replicate hn]
      exact Nat.two_pos
    · rwa [List.prod_replicate]
  simp [answer, hpair, Symbol.candidates_bits hbits, hchoices]

/-- Whether two paths have symbols of one bit only, and the search over their values answers as
given. -/
def bitsDecide (limit : Nat) (value : Bool) (a b : Path) : Bool :=
  (Symbol.pair a b).toOption.any fun symbols =>
    symbols.all (·.width == 1) && decide (2 ^ symbols.length ≤ limit) &&
      compareOn a b symbols (List.replicate symbols.length [0, 1])
        (allChoices (List.replicate symbols.length 2)) == .ok value

/-- Where all symbols are single bits, the answer of the oracle can be computed. -/
theorem decide_of_bitsDecide {rng : Generator} {limit : Nat} {value : Bool} {a b : Path}
    (h : bitsDecide limit value a b = true) :
    (oracle rng limit).decide .live (.ofPath a) (.ofPath b) = .ok value := by
  obtain ⟨symbols, hpair, hfacts⟩ := Path.exists_ok_of_any h
  simp only [Bool.and_eq_true, List.all_eq_true, beq_iff_eq, decide_eq_true_eq] at hfacts
  obtain ⟨⟨hbits, hfew⟩, hanswer⟩ := hfacts
  exact (answer_bits rng hpair hbits hfew).trans hanswer

/-! ### Exhaustive sampling -/

/-- If there are few enough candidates, the answer says whether the constraints of the paths agree
on all lists of candidates. -/
theorem answer_exhaustive (rng : Generator) {a b : Path} {limit : Nat}
    {candidates : List (List Nat)}
    (hpair : Symbol.pair a b = .ok (Symbol.ofInputs a.inputs b.inputs))
    (hlen : a.inputs.length = b.inputs.length)
    (hcandidates : Symbol.candidates (.ofPath a) (.ofPath b) (Symbol.ofInputs a.inputs b.inputs)
      = candidates)
    (hlimit : (candidates.map List.length).prod ≤ limit)
    (ha : ∀ values, List.Forall₂ (· ∈ ·) values candidates →
      ∃ x, Constraint.allHold (a.sampled values) a.constraints = .ok x)
    (hb : ∀ values, List.Forall₂ (· ∈ ·) values candidates →
      ∃ y, Constraint.allHold (b.sampled values) b.constraints = .ok y) :
    (answer rng limit .live (.ofPath a) (.ofPath b)).error = none ∧
      ((answer rng limit .live (.ofPath a) (.ofPath b)).value = true ↔
        ∀ values, List.Forall₂ (· ∈ ·) values candidates →
          Constraint.allHold (a.sampled values) a.constraints
            = Constraint.allHold (b.sampled values) b.constraints) := by
  have hchoices : choices rng (candidates.map List.length) limit
      = allChoices (candidates.map List.length) :=
    choices_eq_allChoices rng (hcandidates ▸ Symbol.length_candidates_pos _ _ _) hlimit
  have hsample {c : List Nat} (hc : c ∈ allChoices (candidates.map List.length)) :
      List.Forall₂ (· ∈ ·) (sample candidates c) candidates :=
    exists_choice_iff.mp ⟨c, hc, rfl⟩
  obtain ⟨hnamesA, hnamesB⟩ := Symbol.map_names_ofInputs hlen
  obtain ⟨herror, hvalue⟩ := compareOn_spec (a := a) (b := b)
    (Path.assignment_bindings hnamesA candidates) (Path.assignment_bindings hnamesB candidates)
    (fun c hc => ha _ (hsample hc)) (fun c hc => hb _ (hsample hc))
  simp only [answer, Profile.path_ofPath, hpair, hcandidates, hchoices]
  refine ⟨herror, hvalue.trans ⟨fun h values hvalues => ?_, fun h c hc => h _ (hsample hc)⟩⟩
  obtain ⟨c, hc, rfl⟩ := exists_choice_iff.mpr hvalues
  exact h c hc

end Sampling

namespace Path

/-! ### Transfer -/

/-- Two assignments give the inputs with the same place the same number, of at most `maxWidth`
bits. -/
def Agree (a b : Path) (envA envB : Assignment) : Prop :=
  ∀ (i : Nat) (v w : Variable), a.inputs[i]? = some v → b.inputs[i]? = some w →
    ∃ n < 2 ^ maxWidth, envA v.name = some n ∧ envB w.name = some n

/-- All constraints are boolean combinations of comparisons of an input with a literal. -/
def Elementary (p : Path) : Prop :=
  ∀ c ∈ p.constraints, c.term.Elementary

instance (p : Path) : Decidable p.Elementary :=
  inferInstanceAs (Decidable (∀ c ∈ p.constraints, c.term.Elementary))

/-- Assignments that give each input numbers of one cell evaluate elementary constraints alike. -/
theorem Elementary.allHold_congr {p : Path} (h : p.Elementary) (hp : p.WellFormed)
    {literals : Nat → List Nat} (hliterals : ∀ w, Symbol.literals w p ⊆ literals w)
    {env env' : Assignment} (hsim : ∀ v ∈ p.inputs, Term.SimilarAt literals env env' v) :
    ∃ b, Constraint.allHold env p.constraints = .ok b ∧
      Constraint.allHold env' p.constraints = .ok b := by
  refine Constraint.allHold_congr fun c hc => ?_
  have hinput {v : Variable} (hv : .input v ∈ c.term.parts) : v ∈ p.inputs :=
    mem_inputs.mpr (hp.terms c hc (.input v) hv)
  have hterm : c.term.Similar literals env env' :=
    { pos := fun v hv => (hp.input_width (hinput hv)).1
      inputs := fun v hv => hsim v (hinput hv)
      literals := fun n w hn => hliterals w (Symbol.mem_literals.mpr ⟨c, hc, hn⟩) }
  exact (h c hc).agreesOn hterm

/-- The sample takes a number of the cell of each input. -/
theorem similarAt_sampled {p : Path} (hp : p.WellFormed) {literals : Nat → List Nat}
    {env : Assignment} {values : List Nat} (hlen : p.inputs.length = values.length)
    (h : ∀ (i : Nat) (v : Variable) (r : Nat), p.inputs[i]? = some v → values[i]? = some r →
      ∃ n, env v.name = some n ∧
        SameCell v.width (literals v.width) (n % 2 ^ v.width) (r % 2 ^ v.width)) :
    ∀ v ∈ p.inputs, Term.SimilarAt literals env (p.sampled values) v := by
  intro v hv
  obtain ⟨i, hi, rfl⟩ := List.getElem_of_mem hv
  have hinput := List.getElem?_eq_getElem hi
  have hvalue := List.getElem?_eq_getElem (hlen ▸ hi)
  obtain ⟨n, hn, hcell⟩ := h i _ _ hinput hvalue
  exact ⟨n, _, hn, sampled_eq_some hp.inputs_nodup hlen hinput hvalue, hcell⟩

section Pair

variable {a b : Path} (hwidths : a.inputs.map (·.width) = b.inputs.map (·.width))
  (hfew : ∀ e ∈ (Symbol.ofInputs a.inputs b.inputs).zipIdx,
    (Symbol.allCandidates (.ofPath a) (.ofPath b) e.2 e.1).length ≤ Symbol.maxCandidates)
  {candidates : List (List Nat)}
  (hcandidates : Symbol.candidates (.ofPath a) (.ofPath b) (Symbol.ofInputs a.inputs b.inputs)
    = candidates)

include hwidths in
/-- Inputs at the same place have the same width. -/
theorem width_eq_of_place {i : Nat} {v w : Variable} (hv : a.inputs[i]? = some v)
    (hw : b.inputs[i]? = some w) : v.width = w.width := by
  simpa [hv, hw] using congrArg (·[i]?) hwidths

include hfew hcandidates in
/-- At each place stand the candidates of the symbol there, all of them. -/
theorem getElem?_candidates {i : Nat} {v w : Variable} (hv : a.inputs[i]? = some v)
    (hw : b.inputs[i]? = some w) :
    candidates[i]? = some (Symbol.allCandidates (.ofPath a) (.ofPath b) i
      ⟨v.width, some v.name, some w.name⟩) := by
  rw [← hcandidates, Symbol.candidates_eq hfew, List.getElem?_map, List.getElem?_zipIdx,
    Symbol.ofInputs, List.getElem?_zipWith_eq_some.mpr ⟨v, w, hv, hw, rfl⟩]
  simp

include hwidths hcandidates in
/-- There are candidates for each input. -/
theorem length_candidates : a.inputs.length = candidates.length ∧
    b.inputs.length = candidates.length := by
  have hlen : a.inputs.length = b.inputs.length := by simpa using congrArg List.length hwidths
  simp [← hcandidates, Symbol.candidates, Symbol.ofInputs, hlen]

variable (ha : a.WellFormed) (hb : b.WellFormed)

include hwidths hfew hcandidates ha hb in
/-- A sample gives the inputs with the same place the same number. -/
theorem agree_sampled {values : List Nat} (hvalues : List.Forall₂ (· ∈ ·) values candidates) :
    Agree a b (a.sampled values) (b.sampled values) := by
  intro i v w hv hw
  obtain ⟨hlenA, hlenB⟩ := length_candidates hwidths hcandidates
  obtain ⟨r, hr, hri⟩ := Sampling.exists_getElem?_of_forall₂ hvalues
    (getElem?_candidates hfew hcandidates hv hw)
  have hlt : r < 2 ^ maxWidth := calc
    r < 2 ^ v.width := Symbol.lt_of_mem_allCandidates hr
    _ ≤ 2 ^ maxWidth :=
      Nat.pow_le_pow_right (by decide) (ha.input_width (List.mem_of_getElem? hv)).2
  exact ⟨r, hlt,
    sampled_eq_some ha.inputs_nodup (hlenA.trans hvalues.length_eq.symm) hv hri,
    sampled_eq_some hb.inputs_nodup (hlenB.trans hvalues.length_eq.symm) hw hri⟩

include hwidths hfew hcandidates ha hb in
/-- For all values of the inputs there is a sample on which elementary constraints have the same
truth values. -/
theorem exists_sample (hea : a.Elementary) (heb : b.Elementary) {envA envB : Assignment}
    (hagree : Agree a b envA envB) :
    ∃ values, List.Forall₂ (· ∈ ·) values candidates ∧
      (∃ x, Constraint.allHold envA a.constraints = .ok x ∧
        Constraint.allHold (a.sampled values) a.constraints = .ok x) ∧
      ∃ y, Constraint.allHold envB b.constraints = .ok y ∧
        Constraint.allHold (b.sampled values) b.constraints = .ok y := by
  obtain ⟨hlenA, hlenB⟩ := length_candidates hwidths hcandidates
  let literals (u : Nat) : List Nat := Symbol.literals u a ++ Symbol.literals u b
  -- at each place, a candidate in the cell of the number of the inputs there
  have hplaces (i : Nat) (c : List Nat) (hc : candidates[i]? = some c) :
      ∃ r ∈ c, ∃ v w n, a.inputs[i]? = some v ∧ b.inputs[i]? = some w ∧
        envA v.name = some n ∧ envB w.name = some n ∧
        SameCell v.width (literals v.width) (n % 2 ^ v.width) (r % 2 ^ v.width) := by
    obtain ⟨hi, -⟩ := List.getElem?_eq_some_iff.mp hc
    obtain ⟨v, hv⟩ : ∃ v, a.inputs[i]? = some v := ⟨_, List.getElem?_eq_getElem (hlenA ▸ hi)⟩
    obtain ⟨w, hw⟩ : ∃ w, b.inputs[i]? = some w := ⟨_, List.getElem?_eq_getElem (hlenB ▸ hi)⟩
    obtain rfl := Option.some.inj (hc.symm.trans (getElem?_candidates hfew hcandidates hv hw))
    obtain ⟨n, -, hnA, hnB⟩ := hagree i v w hv hw
    let s : Symbol := ⟨v.width, some v.name, some w.name⟩
    have hpos : 0 < s.width := (ha.input_width (List.mem_of_getElem? hv)).1
    obtain ⟨r, hr, hcell⟩ := Symbol.exists_candidate hpos (Nat.mod_lt n (Nat.two_pow_pos _))
    have hlt : r < 2 ^ v.width := Symbol.lt_of_mem_allCandidates hr
    exact ⟨r, hr, v, w, n, hv, hw, hnA, hnB, by rwa [Nat.mod_eq_of_lt hlt]⟩
  obtain ⟨values, hvalues, hcells⟩ := Sampling.exists_forall₂_of_places hplaces
  have hsimA : ∀ v ∈ a.inputs, Term.SimilarAt literals envA (a.sampled values) v := by
    refine similarAt_sampled ha (hlenA.trans hvalues.length_eq.symm) fun i v r hv hr => ?_
    obtain ⟨v', -, n, hv', -, hn, -, hcell⟩ := hcells i r hr
    cases hv.symm.trans hv'
    exact ⟨n, hn, hcell⟩
  have hsimB : ∀ w ∈ b.inputs, Term.SimilarAt literals envB (b.sampled values) w := by
    refine similarAt_sampled hb (hlenB.trans hvalues.length_eq.symm) fun i w r hw hr => ?_
    obtain ⟨v, w', n, hv, hw', -, hn, hcell⟩ := hcells i r hr
    cases hw.symm.trans hw'
    exact ⟨n, hn, width_eq_of_place hwidths hv hw ▸ hcell⟩
  exact ⟨values, hvalues,
    hea.allHold_congr ha (fun u => List.subset_append_left _ _) hsimA,
    heb.allHold_congr hb (fun u => List.subset_append_right _ _) hsimB⟩

end Pair

end Path

namespace Sampling

/-- Exhaustive sampling is a decision procedure. For two paths without memory, with inputs of the
same widths, whose constraints are boolean combinations of comparisons of an input with a literal:
if no candidate is left out and all samples are taken, then there is an answer, and it is whether
the constraints have the same truth value for all values of the inputs. -/
theorem oracle_decides (rng : Generator) {a b : Path} (ha : a.Accepted) (hb : b.Accepted)
    (hma : a.memory = []) (hmb : b.memory = [])
    (hwidths : a.inputs.map (·.width) = b.inputs.map (·.width))
    (hea : a.Elementary) (heb : b.Elementary) {limit : Nat}
    (hfew : ∀ e ∈ (Symbol.ofInputs a.inputs b.inputs).zipIdx,
      (Symbol.allCandidates (.ofPath a) (.ofPath b) e.2 e.1).length ≤ Symbol.maxCandidates)
    (hlimit : ((Symbol.candidates (.ofPath a) (.ofPath b)
      (Symbol.ofInputs a.inputs b.inputs)).map List.length).prod ≤ limit) :
    let answer := (oracle rng limit).decide .live (.ofPath a) (.ofPath b)
    answer.error = none ∧
      (answer.value = true ↔ ∀ envA envB, Path.Agree a b envA envB →
        Constraint.allHold envA a.constraints = Constraint.allHold envB b.constraints) := by
  have hlen : a.inputs.length = b.inputs.length := by simpa using congrArg List.length hwidths
  generalize hcandidates : Symbol.candidates (.ofPath a) (.ofPath b)
    (Symbol.ofInputs a.inputs b.inputs) = candidates at hlimit
  have hagree {values : List Nat} (hvalues : List.Forall₂ (· ∈ ·) values candidates) :
      Path.Agree a b (a.sampled values) (b.sampled values) :=
    Path.agree_sampled hwidths hfew hcandidates ha.wellFormed hb.wellFormed hvalues
  have htransfer {envA envB : Assignment} (h : Path.Agree a b envA envB) :=
    Path.exists_sample hwidths hfew hcandidates ha.wellFormed hb.wellFormed hea heb h
  have hevaluable {values : List Nat} (hvalues : List.Forall₂ (· ∈ ·) values candidates) :
      (∃ x, Constraint.allHold (a.sampled values) a.constraints = .ok x) ∧
        ∃ y, Constraint.allHold (b.sampled values) b.constraints = .ok y := by
    obtain ⟨-, -, ⟨x, hx, -⟩, y, hy, -⟩ := htransfer (hagree hvalues)
    exact ⟨⟨x, hx⟩, y, hy⟩
  obtain ⟨herror, hvalue⟩ := answer_exhaustive rng (Symbol.pair_eq hma hmb hwidths) hlen hcandidates
    hlimit (fun _ h => (hevaluable h).1) (fun _ h => (hevaluable h).2)
  refine ⟨herror, hvalue.trans ⟨fun h envA envB henv => ?_, fun h values hvalues => ?_⟩⟩
  · obtain ⟨values, hvalues, ⟨x, hx, hx'⟩, y, hy, hy'⟩ := htransfer henv
    calc Constraint.allHold envA a.constraints
      _ = Constraint.allHold (a.sampled values) a.constraints := hx.trans hx'.symm
      _ = Constraint.allHold (b.sampled values) b.constraints := h values hvalues
      _ = Constraint.allHold envB b.constraints := hy'.trans hy.symm
  · exact h _ _ (hagree hvalues)

/-- A sign bit is tested by a signed and by an unsigned comparison, and a second input is excluded
from a point by a conjunction and by a denied implication. -/
theorem oracle_decides_sign_bit :
    let srcA := "(declare-const n (_ BitVec 4)) (declare-const x (_ BitVec 8))
      (assert (and (bvslt x #x00) (distinct n #xf)))"
    let srcB := "(declare-const m (_ BitVec 4)) (declare-const y (_ BitVec 8))
      (assert (not (=> (bvuge y #x80) (= #xf m))))"
    ∃ a b, Path.parse srcA "a" = .ok a ∧ Path.parse srcB "b" = .ok b ∧
      a.memory = [] ∧ b.memory = [] ∧ a.inputs.map (·.width) = b.inputs.map (·.width) ∧
      a.Elementary ∧ b.Elementary ∧
      (∀ e ∈ (Symbol.ofInputs a.inputs b.inputs).zipIdx,
        (Symbol.allCandidates (.ofPath a) (.ofPath b) e.2 e.1).length ≤ Symbol.maxCandidates) ∧
      ((Symbol.candidates (.ofPath a) (.ofPath b)
        (Symbol.ofInputs a.inputs b.inputs)).map List.length).prod ≤ defaultLimit ∧
      let answer := (oracle .congruential defaultLimit).decide .live (.ofPath a) (.ofPath b)
      answer.error = none ∧
        (answer.value = true ↔ ∀ envA envB, Path.Agree a b envA envB →
          Constraint.allHold envA a.constraints = Constraint.allHold envB b.constraints) := by
  intro srcA srcB
  -- how many candidates each symbol has, which does not need them sorted
  let counts (a b : Path) : List Nat := (Symbol.ofInputs a.inputs b.inputs).zipIdx.map fun e =>
    (Symbol.unsorted (.ofPath a) (.ofPath b) e.2 e.1).length
  have hfacts : (Path.parse srcA "a").toOption.any (fun a =>
      (Path.parse srcB "b").toOption.any fun b =>
        a.memory.isEmpty && b.memory.isEmpty &&
          decide (a.inputs.map (·.width) = b.inputs.map (·.width)) && decide a.Elementary &&
          decide b.Elementary && (counts a b).all (· ≤ Symbol.maxCandidates) &&
          decide ((counts a b).prod ≤ defaultLimit)) = true := by
    decide +kernel
  obtain ⟨a, ha, hfacts⟩ := Path.exists_of_parse hfacts
  obtain ⟨b, hb, hfacts⟩ := Path.exists_of_parse hfacts
  simp only [Bool.and_eq_true, List.isEmpty_iff, decide_eq_true_eq] at hfacts
  obtain ⟨⟨⟨⟨⟨⟨hma, hmb⟩, hwidths⟩, hea⟩, heb⟩, hcounts⟩, hlimit⟩ := hfacts
  have hfew : ∀ e ∈ (Symbol.ofInputs a.inputs b.inputs).zipIdx,
      (Symbol.allCandidates (.ofPath a) (.ofPath b) e.2 e.1).length ≤ Symbol.maxCandidates := by
    intro e he
    rw [Symbol.length_allCandidates]
    exact of_decide_eq_true (List.all_eq_true.mp hcounts _ (List.mem_map_of_mem he))
  have hprod : ((Symbol.candidates (.ofPath a) (.ofPath b)
      (Symbol.ofInputs a.inputs b.inputs)).map List.length).prod ≤ defaultLimit := by
    simp only [Symbol.candidates_eq hfew, List.map_map, Function.comp_def,
      Symbol.length_allCandidates]
    exact hlimit
  exact ⟨a, b, ha, hb, hma, hmb, hwidths, hea, heb, hfew, hprod,
    oracle_decides .congruential (.of_parse ha) (.of_parse hb) hma hmb hwidths hea heb hfew hprod⟩

end Sampling

end Pathwise
