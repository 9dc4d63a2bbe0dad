import Pathwise.Proofs.Comparison.Agreement
import Pathwise.Proofs.Oracle.Pairing

/-!
# Pairing and sampling from both sides

Two paths can be paired in either order. The symbols are the same, seen from the other side, though
those for elements of memory come in another order. If all choices of candidates are samples, the
order of the symbols does not matter, and the oracle has one answer for both orders.

* **Pairs** (`Symbol.pairMemory_perm_mirror`): elements of memory are paired by their keys, so that
  there is one symbol for each key, whichever side is first.
* **Candidates** (`Symbol.candidates_mirror`, `Symbol.candidates_append`): the candidates of a
  symbol come from both paths alike, and those of an element of memory do not depend on its place.
* **Names** (`Symbol.count_eq_one_iff`): a name is in one symbol only, unless an input and an
  element of memory share it.
* **Samples** (`Sampling.exists_mirrored`, `Sampling.assignment_mirrored`): a sample in one order
  has a counterpart in the other one that assigns the same numbers on each side.
* **Answers** (`Sampling.value_answer_swap`): so the verdicts agree on all samples in one order if
  they do in the other.
-/

namespace Pathwise

namespace Symbol

/-! ### Pairs -/

/-- A symbol, seen from the other side. -/
def mirror (s : Symbol) : Symbol :=
  ⟨s.width, s.b, s.a⟩

@[simp] theorem width_mirror (s : Symbol) : s.mirror.width = s.width := rfl

@[simp] theorem a_mirror (s : Symbol) : s.mirror.a = s.b := rfl

@[simp] theorem b_mirror (s : Symbol) : s.mirror.b = s.a := rfl

/-- Paired inputs, seen from the other side, are the inputs paired from there. -/
theorem map_mirror_ofInputs {vs ws : List Variable} (h : vs.map (·.width) = ws.map (·.width)) :
    (ofInputs vs ws).map mirror = ofInputs ws vs := by
  induction vs generalizing ws with
  | nil =>
      obtain rfl : ws = [] := by simpa using h.symm
      rfl
  | cons v vs ih =>
      obtain _ | ⟨w, ws⟩ := ws
      · simp at h
      obtain ⟨hw, hws⟩ : v.width = w.width ∧ vs.map (·.width) = ws.map (·.width) := by simpa using h
      have hrest := ih hws
      simp only [ofInputs, List.zipWith_cons_cons, List.map_cons] at hrest ⊢
      rw [hrest, mirror, hw]

variable {as bs : List (String × MemoryKey)}

/-- From the other side, the same elements are paired. -/
theorem pairMemory_perm_mirror (has : (as.map (·.2)).Nodup) (hbs : (bs.map (·.2)).Nodup) :
    (pairMemory bs as).Perm ((pairMemory as bs).map mirror) := by
  rw [pairMemory_eq has hbs, pairMemory_eq hbs has, List.map_map]
  exact (allKeys_perm has hbs).map _

/-- Inputs of equal widths can be paired, and then elements of memory are. -/
theorem pair_eq_append {a b : Path} (hwidths : a.inputs.map (·.width) = b.inputs.map (·.width)) :
    pair a b = .ok (ofInputs a.inputs b.inputs ++ pairMemory a.memoryNames b.memoryNames) := by
  have hlen : a.inputs.length = b.inputs.length := by simpa using congrArg List.length hwidths
  rw [pair, if_neg (not_not_intro hlen), pairInputs_eq hwidths]
  rfl

/-! ### Candidates -/

variable {a b : Profile}

/-- Both paths contribute candidates alike. -/
theorem allCandidates_mirror (place : Nat) (s : Symbol) :
    allCandidates b a place s.mirror = allCandidates a b place s := by
  have hboundaries (x : Nat) : x ∈ boundaries b a place ↔ x ∈ boundaries a b place := by
    unfold boundaries
    cases a.domains[place]? <;> cases b.domains[place]? <;> simp [or_comm]
  have hmem (x : Nat) : x ∈ allCandidates b a place s.mirror ↔ x ∈ allCandidates a b place s := by
    rw [mem_allCandidates, mem_allCandidates]
    simp only [width_mirror, List.mem_append, List.mem_flatMap, hboundaries,
      or_comm (a := _ ∈ literals s.width b.path)]
  have hperm := (List.perm_ext_iff_of_nodup nodup_allCandidates nodup_allCandidates).mpr hmem
  exact hperm.eq_of_pairwise (fun x y _ _ => Nat.le_antisymm) pairwise_allCandidates
    pairwise_allCandidates

/-- The candidates of all symbols are the same from both sides. -/
theorem candidates_mirror (symbols : List Symbol) :
    candidates b a (symbols.map mirror) = candidates a b symbols := by
  simp [candidates, List.zipIdx_map, allCandidates_mirror]

/-- Beyond the inputs, there are no domains. -/
theorem allCandidates_of_le {place : Nat} (h : a.domains.length ≤ place) (s : Symbol) :
    allCandidates a b place s = allCandidates a b a.domains.length s := by
  have hnone {i : Nat} (hi : a.domains.length ≤ i) : boundaries a b i = [] := by
    rw [boundaries, List.getElem?_eq_none hi]
  simp only [allCandidates, hnone h, hnone (Nat.le_refl _)]

/-- The candidates of an element of memory do not depend on its place. -/
theorem candidates_append {inputs : List Symbol} (h : a.domains.length ≤ inputs.length)
    (memory : List Symbol) :
    candidates a b (inputs ++ memory) = candidates a b inputs ++
      memory.map fun s => thin (allCandidates a b a.domains.length s) := by
  have hplaces : (memory.zipIdx inputs.length).map (fun e => thin (allCandidates a b e.2 e.1)) =
      memory.map fun s => thin (allCandidates a b a.domains.length s) := by
    conv_rhs => rw [← List.zipIdx_map_fst inputs.length memory, List.map_map]
    refine List.map_congr_left fun e he => ?_
    have hplace := List.le_snd_of_mem_zipIdx he
    simp only [Function.comp_apply, allCandidates_of_le (Nat.le_trans h hplace)]
  rw [candidates, List.zipIdx_append, List.map_append, Nat.zero_add, hplaces]
  rfl

/-- From the other side, there are the same lists of candidates. -/
theorem candidates_perm {inputs memory memory' : List Symbol}
    (ha : a.domains.length = inputs.length) (hb : b.domains.length = inputs.length)
    (hmemory : memory'.Perm (memory.map mirror)) :
    (candidates b a (inputs.map mirror ++ memory')).Perm (candidates a b (inputs ++ memory)) := by
  rw [candidates_append (by simp [hb]), candidates_append ha.le, candidates_mirror]
  refine List.Perm.append_left _ ((hmemory.map _).trans ?_)
  simp [Function.comp_def, allCandidates_mirror, ha, hb]

/-! ### Names -/

/-- A name is counted alike among the symbols and among their names. -/
theorem count_map_side (side : Symbol → Option String) (symbols : List Symbol) (name : String) :
    (symbols.map side).count (some name) = (symbols.filterMap side).count name := by
  induction symbols with
  | nil => rfl
  | cons s symbols ih =>
      rw [List.map_cons, List.count_cons, ih, List.filterMap_cons]
      cases side s with
      | none => simp
      | some other => simp [List.count_cons]

/-- Symbols that are named after those of a path have each name once if it has each name once. -/
theorem count_eq_one_iff {p : Path} {side : Symbol → Option String} {symbols : List Symbol}
    (h : (symbols.filterMap side).Perm p.symbolNames) :
    (∀ name ∈ p.symbolNames, (symbols.map side).count (some name) = 1) ↔
      p.symbolNames.Nodup := by
  rw [List.nodup_iff_count_eq_one]
  refine forall₂_congr fun name _ => ?_
  rw [count_map_side, h.count_eq]

end Symbol

namespace Sampling

/-! ### Samples -/

/-- The names of one side with the numbers of their symbols. -/
def numbered (side : Symbol → Option String) (sampled : List (Symbol × Nat)) :
    List (String × Nat) :=
  sampled.filterMap fun e => (side e.1).map (·, e.2)

/-- Bindings are the names with their numbers, the latest first. -/
theorem bindings_eq_numbered (side : Symbol → Option String) (symbols : List Symbol)
    (candidates : List (List Nat)) (choice : List Nat) :
    bindings side symbols candidates choice =
      (numbered side (symbols.zip (sample candidates choice))).reverse := by
  rw [bindings, numbered, sample, ← List.map_uncurry_zip_eq_zipWith, List.zip_map_right,
    List.filterMap_map]
  rfl

/-- The names that get numbers are those of the symbols. -/
theorem map_fst_numbered (side : Symbol → Option String) (sampled : List (Symbol × Nat)) :
    (numbered side sampled).map (·.1) = (sampled.map (·.1)).filterMap side := by
  rw [numbered, List.map_filterMap, List.filterMap_map]
  congr 1
  funext e
  rw [Function.comp_apply]
  cases side e.1 <;> rfl

/-- A sample, seen from the other side. -/
def mirrored (sampled : List (Symbol × Nat)) : List (Symbol × Nat) :=
  sampled.map (Prod.map Symbol.mirror id)

/-- Each side has the same numbers, seen from the other side. -/
theorem numbered_mirrored {side side' : Symbol → Option String}
    (hside : ∀ s : Symbol, side' s.mirror = side s) (sampled : List (Symbol × Nat)) :
    numbered side' (mirrored sampled) = numbered side sampled := by
  simp [numbered, mirrored, List.filterMap_map, hside]

/-- Where names are different, their order does not matter for looking them up. -/
theorem lookup_eq_of_perm {xs ys : List (String × Nat)} (h : xs.Perm ys)
    (hnodup : (xs.map (·.1)).Nodup) (name : String) : xs.lookup name = ys.lookup name := by
  have hnodup' : (ys.map (·.1)).Nodup := (h.map _).nodup_iff.mp hnodup
  ext n
  constructor
  · intro hn
    exact lookup_eq_some_of_mem hnodup' (h.mem_iff.mp (Path.Builder.mem_of_lookup hn))
  · intro hn
    exact lookup_eq_some_of_mem hnodup (h.mem_iff.mpr (Path.Builder.mem_of_lookup hn))

/-- The order in which different names are given their numbers does not matter. -/
theorem assignment_mirrored {side side' : Symbol → Option String}
    (hside : ∀ s : Symbol, side' s.mirror = side s) {first rest rest' : List (Symbol × Nat)}
    (hrest : rest'.Perm (mirrored rest)) (hnodup : ((rest.map (·.1)).filterMap side).Nodup) :
    assignment (numbered side' (mirrored first ++ rest')).reverse =
      assignment (numbered side (first ++ rest)).reverse := by
  have hsplit (side : Symbol → Option String) (xs ys : List (Symbol × Nat)) :
      (numbered side (xs ++ ys)).reverse =
        (numbered side ys).reverse ++ (numbered side xs).reverse := by
    rw [numbered, List.filterMap_append, List.reverse_append]
    rfl
  have hperm : (numbered side' rest').reverse.Perm (numbered side rest).reverse := by
    refine (List.reverse_perm _).trans (List.Perm.trans ?_ (List.reverse_perm _).symm)
    rw [← numbered_mirrored hside]
    exact hrest.filterMap _
  have hnames : ((numbered side' rest').reverse.map (·.1)).Nodup := by
    rw [(hperm.map _).nodup_iff, List.map_reverse, List.nodup_reverse, map_fst_numbered]
    exact hnodup
  funext name
  rw [assignment, assignment, hsplit, hsplit, List.lookup_append, List.lookup_append,
    numbered_mirrored hside, lookup_eq_of_perm hperm hnames]

/-- Symbols with one of their candidates each. -/
theorem forall₂_candidates_iff {g : Symbol → List Nat} {symbols : List Symbol}
    {sampled : List (Symbol × Nat)} :
    List.Forall₂ (fun s e => e.1 = s ∧ e.2 ∈ g s) symbols sampled ↔
      sampled.map (·.1) = symbols ∧
        List.Forall₂ (· ∈ ·) (sampled.map (·.2)) (symbols.map g) := by
  induction symbols generalizing sampled with
  | nil => simp
  | cons s symbols ih =>
      cases sampled with
      | nil => simp
      | cons e sampled =>
          simp only [List.forall₂_cons, ih, List.map_cons, List.cons.injEq]
          constructor
          · rintro ⟨⟨rfl, he⟩, rfl, hrest⟩
            exact ⟨⟨rfl, rfl⟩, he, hrest⟩
          · rintro ⟨⟨rfl, rfl⟩, he, hrest⟩
            exact ⟨⟨rfl, he⟩, rfl, hrest⟩

/-- A list of candidates for paired symbols, in one order, has a counterpart in the other order. -/
theorem exists_mirrored {a b : Profile} {inputs memory memory' : List Symbol}
    (ha : a.domains.length = inputs.length) (hb : b.domains.length = inputs.length)
    (hmemory : memory'.Perm (memory.map Symbol.mirror)) {values : List Nat}
    (hvalues : List.Forall₂ (· ∈ ·) values (Symbol.candidates a b (inputs ++ memory))) :
    ∃ values' first rest rest',
      List.Forall₂ (· ∈ ·) values'
        (Symbol.candidates b a (inputs.map Symbol.mirror ++ memory')) ∧
      (inputs ++ memory).zip values = first ++ rest ∧ rest.map (·.1) = memory ∧
      (inputs.map Symbol.mirror ++ memory').zip values' = mirrored first ++ rest' ∧
      rest'.Perm (mirrored rest) := by
  have hlength : (Symbol.candidates a b inputs).length = inputs.length := by
    simp [Symbol.candidates]
  rw [Symbol.candidates_append ha.le] at hvalues
  have hinputs := List.forall₂_take_append _ _ _ hvalues
  have hothers := List.forall₂_drop_append _ _ _ hvalues
  rw [hlength] at hinputs hothers
  rw [← List.take_append_drop inputs.length values]
  generalize values.take inputs.length = known at hinputs ⊢
  generalize values.drop inputs.length = others at hothers ⊢
  have hknown : inputs.length = known.length := by rw [hinputs.length_eq, hlength]
  have hcount : memory.length = others.length := by rw [hothers.length_eq, List.length_map]
  -- candidates are the same from both sides, so elements take theirs along to their new places
  have hmirrored : List.Forall₂
      (fun s e => e.1 = s ∧ e.2 ∈ Symbol.thin (Symbol.allCandidates b a b.domains.length s))
      (memory.map Symbol.mirror) (mirrored (memory.zip others)) := by
    rw [forall₂_candidates_iff, mirrored, List.map_map, List.map_map, List.map_map]
    constructor
    · conv_rhs => rw [← List.map_fst_zip hcount.le, List.map_map]
      rfl
    · simpa [Function.comp_def, Symbol.allCandidates_mirror, hb, ← ha,
        List.map_snd_zip hcount.ge] using hothers
  obtain ⟨rest', hrest', hperm⟩ := List.perm_comp_forall₂ hmemory hmirrored
  obtain ⟨hsymbols, hchosen⟩ := forall₂_candidates_iff.mp hrest'
  refine ⟨known ++ rest'.map (·.2), inputs.zip known, memory.zip others, rest', ?_, ?_, ?_, ?_,
    hperm⟩
  · rw [Symbol.candidates_append (by simp [hb]), Symbol.candidates_mirror]
    exact List.rel_append hinputs hchosen
  · exact List.zip_append hknown
  · exact List.map_fst_zip hcount.le
  · rw [List.zip_append (by simpa using hknown), List.zip_map_left, mirrored,
      ← List.zip_of_prod hsymbols rfl]

/-! ### Answers -/

variable {a b : Path}

/-- The constraints of two paths have one verdict on a sample. -/
def Agreeing (a b : Path) (sampled : List (Symbol × Nat)) : Prop :=
  ∃ x, verdictOn a (numbered (·.a) sampled).reverse = .ok x ∧
    verdictOn b (numbered (·.b) sampled).reverse = .ok x

/-- An answer that counts says whether the verdicts agree on all samples. -/
theorem value_compareOn_iff {symbols : List Symbol} {candidates choices : List (List Nat)}
    (h : (compareOn a b symbols candidates choices).error = none) :
    (compareOn a b symbols candidates choices).value = true ↔
      ∀ choice ∈ choices, Agreeing a b (symbols.zip (sample candidates choice)) := by
  induction choices with
  | nil => simp [compareOn, Oracle.Answer.ok]
  | cons choice choices ih =>
      unfold compareOn at h ⊢
      simp only [Agreeing, bindings_eq_numbered, List.forall_mem_cons] at h ih ⊢
      split at h
      · cases h
      · rename_i x hx
        split at h
        · cases h
        · rename_i y hy
          split at h
          · rename_i hxy
            simpa [hx, hy, hxy] using ih h
          · rename_i hxy
            simp [hx, hy, hxy, Ne.symm hxy, Oracle.Answer.ok]

/-- If all choices are samples, so are all lists of candidates. -/
theorem value_answer_iff {rng : Generator} {symbols : List Symbol} {limit : Nat}
    (hpair : Symbol.pair a b = .ok symbols)
    (hlimit : ((Symbol.candidates (.ofPath a) (.ofPath b) symbols).map List.length).foldl
      (· * ·) 1 ≤ limit)
    (h : (answer rng limit .live (.ofPath a) (.ofPath b)).error = none) :
    (answer rng limit .live (.ofPath a) (.ofPath b)).value = true ↔
      ∀ values, List.Forall₂ (· ∈ ·) values (Symbol.candidates (.ofPath a) (.ofPath b) symbols) →
        Agreeing a b (symbols.zip values) := by
  have hchoices := choices_eq_allChoices rng
    (Symbol.length_candidates_pos (.ofPath a) (.ofPath b) symbols)
    (List.prod_eq_foldl_nat.trans_le hlimit)
  simp only [answer, Profile.path_ofPath, hpair, hchoices] at h ⊢
  rw [value_compareOn_iff h]
  constructor
  · intro hall values hvalues
    obtain ⟨choice, hchoice, rfl⟩ := exists_choice_iff.mpr hvalues
    exact hall choice hchoice
  · intro hall choice hchoice
    exact hall _ (exists_choice_iff.mp ⟨choice, hchoice, rfl⟩)

/-- There is a domain for each pair of inputs, on both sides. -/
theorem length_domains_ofPath (hlen : a.inputs.length = b.inputs.length) :
    (Profile.ofPath a).domains.length = (Symbol.ofInputs a.inputs b.inputs).length ∧
      (Profile.ofPath b).domains.length = (Symbol.ofInputs a.inputs b.inputs).length := by
  constructor
  · exact a.length_domains.trans (by simp [Symbol.ofInputs, hlen])
  · exact b.length_domains.trans (by simp [Symbol.ofInputs, hlen])

/-- A verdict on a sample depends only on what the sample assigns. -/
theorem verdictOn_congr {p : Path} {bound bound' : List (String × Nat)}
    (h : assignment bound = assignment bound') : verdictOn p bound = verdictOn p bound' := by
  rw [verdictOn, verdictOn, h]

/-- If all choices are samples and the verdicts agree in one order of the paths, they agree in the
other. -/
theorem value_answer_swap {rng : Generator} (ha : a.WellFormed) (hb : b.WellFormed)
    (hwidths : a.inputs.map (·.width) = b.inputs.map (·.width)) {symbols symbols' : List Symbol}
    (hpair : Symbol.pair a b = .ok symbols) (hpair' : Symbol.pair b a = .ok symbols') {limit : Nat}
    (hlimit : ((Symbol.candidates (.ofPath a) (.ofPath b) symbols).map List.length).foldl
      (· * ·) 1 ≤ limit)
    (hlimit' : ((Symbol.candidates (.ofPath b) (.ofPath a) symbols').map List.length).foldl
      (· * ·) 1 ≤ limit)
    (herror : (answer rng limit .live (.ofPath a) (.ofPath b)).error = none)
    (herror' : (answer rng limit .live (.ofPath b) (.ofPath a)).error = none)
    (h : (answer rng limit .live (.ofPath b) (.ofPath a)).value = true) :
    (answer rng limit .live (.ofPath a) (.ofPath b)).value = true := by
  have hlen : a.inputs.length = b.inputs.length := by simpa using congrArg List.length hwidths
  rw [value_answer_iff hpair hlimit herror]
  rw [value_answer_iff hpair' hlimit' herror'] at h
  rw [Symbol.pair_eq_append hwidths] at hpair
  rw [Symbol.pair_eq_append hwidths.symm, ← Symbol.map_mirror_ofInputs hwidths] at hpair'
  cases hpair
  cases hpair'
  intro values hvalues
  obtain ⟨values', first, rest, rest', hvalues', hzip, hrest, hzip', hperm⟩ := exists_mirrored
    (length_domains_ofPath hlen).1 (length_domains_ofPath hlen).2
    (Symbol.pairMemory_perm_mirror ha.nodup_keys hb.nodup_keys) hvalues
  obtain ⟨x, hx, hy⟩ := h values' hvalues'
  have hnodupA : ((rest.map (·.1)).filterMap (·.a)).Nodup := by
    rw [hrest, Symbol.filterMap_a_pairMemory ha.nodup_keys hb.nodup_keys]
    exact a.nodup_memoryNames
  have hnodupB : ((rest.map (·.1)).filterMap (·.b)).Nodup := by
    rw [hrest, (Symbol.filterMap_b_pairMemory ha.nodup_keys hb.nodup_keys).nodup_iff]
    exact b.nodup_memoryNames
  rw [hzip'] at hx hy
  rw [hzip]
  refine ⟨x, ?_, ?_⟩
  · rw [← hy]
    exact verdictOn_congr (assignment_mirrored Symbol.b_mirror hperm hnodupA).symm
  · rw [← hx]
    exact verdictOn_congr (assignment_mirrored Symbol.a_mirror hperm hnodupB).symm

/-- **Pairing is a symmetric partial bijection, as far as names are different.** Every name of a
path occurs in exactly one symbol if and only if no input is named like a location. From the other
side, the same names are paired, and the oracle has the same answer if all choices are samples. -/
theorem pairing_symmetric (rng : Generator) {a b : Path} (ha : a.Accepted) (hb : b.Accepted)
    (hwidths : a.inputs.map (·.width) = b.inputs.map (·.width)) :
    ∃ symbols symbols', Symbol.pair a b = .ok symbols ∧ Symbol.pair b a = .ok symbols' ∧
      ((∀ name ∈ a.symbolNames, (symbols.map (·.a)).count (some name) = 1) ↔ a.InputsApart) ∧
      ((∀ name ∈ b.symbolNames, (symbols.map (·.b)).count (some name) = 1) ↔ b.InputsApart) ∧
      symbols'.Perm (symbols.map Symbol.mirror) ∧
      ∀ limit, ((Symbol.candidates (.ofPath a) (.ofPath b) symbols).map List.length).foldl
          (· * ·) 1 ≤ limit →
        (answer rng limit .live (.ofPath a) (.ofPath b)).error = none →
        (answer rng limit .live (.ofPath b) (.ofPath a)).error = none →
        (answer rng limit .live (.ofPath a) (.ofPath b)).value =
          (answer rng limit .live (.ofPath b) (.ofPath a)).value := by
  have hwfA := ha.wellFormed
  have hwfB := hb.wellFormed
  have hlen : a.inputs.length = b.inputs.length := by simpa using congrArg List.length hwidths
  have hpair := Symbol.pair_eq_append hwidths
  have hpair' := Symbol.pair_eq_append hwidths.symm
  have hmemory := Symbol.pairMemory_perm_mirror hwfA.nodup_keys hwfB.nodup_keys
  obtain ⟨hnamesA, hnamesB⟩ := Symbol.names_of_pair hwfA hwfB hpair
  refine ⟨_, _, hpair, hpair', ?_, ?_, ?_, ?_⟩
  · rw [Symbol.count_eq_one_iff hnamesA, hwfA.nodup_symbolNames_iff]
  · rw [Symbol.count_eq_one_iff hnamesB, hwfB.nodup_symbolNames_iff]
  · rw [List.map_append, Symbol.map_mirror_ofInputs hwidths]
    exact hmemory.append_left _
  · intro limit hlimit herror herror'
    have hcounts := (Symbol.candidates_perm (length_domains_ofPath hlen).1
      (length_domains_ofPath hlen).2 hmemory).map List.length
    have hlimit' := hcounts.foldl_op_eq.trans_le hlimit
    rw [Symbol.map_mirror_ofInputs hwidths] at hlimit'
    rw [Bool.eq_iff_iff]
    constructor
    · exact value_answer_swap hwfB hwfA hwidths.symm hpair' hpair hlimit' hlimit herror' herror
    · exact value_answer_swap hwfA hwfB hwidths hpair hpair' hlimit hlimit' herror herror'

/-- The second path touches its elements in the other order, so that its symbols come in the other
order when it is first. -/
theorem pairing_symmetric_reordered :
    let srcA := "(declare-const x (_ BitVec 1))(declare-const m (Array (_ BitVec 1) (_ BitVec 1)))
      (assert (distinct (select m x) (select m (bvadd x #b1))))"
    let srcB := "(declare-const y (_ BitVec 1))(declare-const n (Array (_ BitVec 1) (_ BitVec 1)))
      (assert (distinct (select n (bvadd y #b1)) (select n y)))"
    ∃ a b symbols symbols', Path.parse srcA "a" = .ok a ∧ Path.parse srcB "b" = .ok b ∧
      a.inputs.map (·.width) = b.inputs.map (·.width) ∧
      Symbol.pair a b = .ok symbols ∧ Symbol.pair b a = .ok symbols' ∧
      symbols' ≠ symbols.map Symbol.mirror ∧ symbols'.Perm (symbols.map Symbol.mirror) ∧
      (∀ name ∈ a.symbolNames, (symbols.map (·.a)).count (some name) = 1) ∧
      (∀ name ∈ b.symbolNames, (symbols.map (·.b)).count (some name) = 1) ∧
      (answer .congruential defaultLimit .live (.ofPath a) (.ofPath b)).value =
        (answer .congruential defaultLimit .live (.ofPath b) (.ofPath a)).value := by
  intro srcA srcB
  have hfacts : (Path.parse srcA "a").toOption.any (fun a =>
      (Path.parse srcB "b").toOption.any fun b =>
        decide (a.InputsApart ∧ b.InputsApart) &&
        decide (a.inputs.map (·.width) = b.inputs.map (·.width)) &&
        bitsDecide defaultLimit true a b && bitsDecide defaultLimit true b a &&
        (Symbol.pair a b).toOption.any fun symbols =>
          symbols.length == 3 && symbols.all (·.width == 1) &&
            (Symbol.pair b a).toOption != some (symbols.map Symbol.mirror)) = true := by
    decide +kernel
  obtain ⟨a, ha, hfacts⟩ := Path.exists_of_parse hfacts
  obtain ⟨b, hb, hfacts⟩ := Path.exists_of_parse hfacts
  simp only [Bool.and_eq_true, decide_eq_true_eq] at hfacts
  obtain ⟨⟨⟨⟨⟨hapartA, hapartB⟩, hwidths⟩, hab⟩, hba⟩, hfacts⟩ := hfacts
  obtain ⟨symbols, hpair, hfacts⟩ := Path.exists_ok_of_any hfacts
  simp only [Bool.and_eq_true, List.all_eq_true, beq_iff_eq, bne_iff_ne] at hfacts
  obtain ⟨⟨hlength, hbits⟩, hne⟩ := hfacts
  obtain ⟨_, symbols', hok, hpair', hleft, hright, hperm, hanswer⟩ :=
    pairing_symmetric .congruential (.of_parse ha) (.of_parse hb) hwidths
  cases hpair.symm.trans hok
  rw [hpair'] at hne
  have hlimit : ((Symbol.candidates (.ofPath a) (.ofPath b) symbols).map List.length).foldl
      (· * ·) 1 ≤ defaultLimit := by
    rw [Symbol.candidates_bits hbits, hlength]
    decide
  refine ⟨a, b, symbols, symbols', ha, hb, hwidths, hpair, hpair', ?_, hperm, hleft.mpr hapartA,
    hright.mpr hapartB, ?_⟩
  · rintro rfl
    exact hne rfl
  · exact hanswer defaultLimit hlimit (congrArg _ (decide_of_bitsDecide hab))
      (congrArg _ (decide_of_bitsDecide hba))

/-- An input can be named like an element of an array. Then its name is in two symbols, and the
value of the input is not used: the paths differ on samples, though the first asserts of its second
input what the second does. -/
theorem pairing_not_bijective :
    let srcA := "(declare-const m (Array (_ BitVec 1) (_ BitVec 1))) (declare-const x (_ BitVec 1))
      (declare-const m[x] (_ BitVec 1))
      (assert (= m[x] #b0)) (assert (= (select m x) (select m x)))"
    let srcB := "(declare-const x (_ BitVec 1)) (declare-const y (_ BitVec 1)) (assert (= y #b0))"
    ∃ a b symbols, Path.parse srcA "a" = .ok a ∧ Path.parse srcB "b" = .ok b ∧
      a.inputs.map (·.width) = b.inputs.map (·.width) ∧ Symbol.pair a b = .ok symbols ∧
      "m[x]" ∈ a.symbolNames ∧ (symbols.map (·.a)).count (some "m[x]") = 2 ∧
      (oracle .congruential defaultLimit).decide .live (.ofPath a) (.ofPath b) = .ok false := by
  intro srcA srcB
  have hfacts : (Path.parse srcA "a").toOption.any (fun a =>
      (Path.parse srcB "b").toOption.any fun b =>
        decide (a.inputs.map (·.width) = b.inputs.map (·.width)) &&
        decide ("m[x]" ∈ a.symbolNames) && bitsDecide defaultLimit false a b &&
        (Symbol.pair a b).toOption.any fun symbols =>
          (symbols.map (·.a)).count (some "m[x]") == 2) = true := by
    decide +kernel
  obtain ⟨a, ha, hfacts⟩ := Path.exists_of_parse hfacts
  obtain ⟨b, hb, hfacts⟩ := Path.exists_of_parse hfacts
  simp only [Bool.and_eq_true, decide_eq_true_eq] at hfacts
  obtain ⟨⟨⟨hwidths, hname⟩, hdecide⟩, hfacts⟩ := hfacts
  obtain ⟨symbols, hpair, hcount⟩ := Path.exists_ok_of_any hfacts
  exact ⟨a, b, symbols, ha, hb, hwidths, hpair, hname, beq_iff_eq.mp hcount,
    decide_of_bitsDecide hdecide⟩

end Sampling

end Pathwise
