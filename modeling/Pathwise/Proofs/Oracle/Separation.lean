import Pathwise.Proofs.Oracle.Pairing
import Pathwise.Proofs.Term.Arrays
import Pathwise.Proofs.Term.Equality

/-!
# Disagreements on a sample

If the constraints of two paths disagree on a sample, there should be an input on which they really
do: interpretations of the symbols of both paths, with total functions for arrays, that give paired
symbols the same number. Samples give numbers to names, so this is a question of what has two names.

* **Names** (`Path.Unaliased`): reads of one array at equal indices have one name, unless a store
  answers one of them, and no input is named like a location.
* **Models** (`Assignment.model`): the reads of a path give a function for each of its arrays. If
  the path is unaliased, this is the interpretation under which its constraints are evaluated
  (`Path.follows_model`), and it gives each name its number (`Path.gives_model`).
* **Separation** (`Sampling.separation_definite`): then a disagreement on a sample is real. For an
  array that is read under two names at one index, it may not be
  (`Sampling.separation_not_definite`).
-/

namespace Pathwise

namespace Path

/-! ### Inputs that separate two paths -/

/-- The reads in the constraints of a path. -/
def reads (p : Path) : List Read :=
  p.constraints.flatMap (·.term.reads)

/-- All constraints are boolean terms. -/
def WellSorted (p : Path) : Prop :=
  ∀ c ∈ p.constraints, c.term.HasSort .bool

/-- All constraints are true under an interpretation. -/
def HoldsUnder (p : Path) (I : Interpretation) : Prop :=
  ∀ c ∈ p.constraints, c.term.Denotes I (.bool true)

/-- Some constraint is false under an interpretation. -/
def FailsUnder (p : Path) (I : Interpretation) : Prop :=
  ∃ c ∈ p.constraints, c.term.Denotes I (.bool false)

/-- An interpretation gives a number to what a path calls by a name: to the symbol of this name, and
to the elements of arrays that are read under it, where all stores on the array have other
indices. -/
structure Gives (p : Path) (I : Interpretation) (name : String) (n : Nat) : Prop where
  words : ∀ v ∈ p.declared, v.name = name → I.word v = BitVec.ofNat v.width n
  elements : ∀ r ∈ p.reads, r.name = name → ∀ x : BitVec r.array.role.indexWidth,
    r.index.Denotes I (.bits _ x) →
      (∀ j ∈ r.stores, ∃ y : BitVec r.array.role.indexWidth, j.Denotes I (.bits _ y) ∧ y ≠ x) →
      I.array r.array x = BitVec.ofNat r.array.width n

/-- Some input separates two paths. There are interpretations of the symbols on both sides that give
paired symbols one number, and under which the constraints of one path are true, and a constraint of
the other is false. -/
def Separable (a b : Path) : Prop :=
  ∃ symbols I J, Symbol.pair a b = .ok symbols ∧
    (∀ s ∈ symbols, ∃ n, (∀ name, s.a = some name → a.Gives I name n) ∧
      ∀ name, s.b = some name → b.Gives J name n) ∧
    (a.HoldsUnder I ∧ b.FailsUnder J ∨ a.FailsUnder I ∧ b.HoldsUnder J)

/-- Different names stand for different things, whatever values these have. Arrays are only
accessed, no input is named like a location, and two reads that look at one array at equal indices
have one name. A read that a store answers does not look at the array. -/
structure Unaliased (p : Path) : Prop where
  accesses : ∀ c ∈ p.constraints, c.term.OnlyAccesses
  inputs : p.InputsApart
  reads : ∀ r ∈ p.reads, ∀ s ∈ p.reads, r.array = s.array → ∀ env x,
    r.Reaches env x → s.Reaches env x → r.name = s.name

end Path

/-! ### Models of assignments -/

/-- Whether a read looks at its array at a value of its index. -/
def Read.reaches (r : Read) (env : Assignment) (x : Value) : Bool :=
  (r.index.eval env).toOption = some x && r.stores.all fun j => (j.eval env).toOption != some x

/-- Whether a read reaches the array can be computed. -/
theorem Read.reaches_iff {r : Read} {env : Assignment} {x : Value} :
    r.reaches env x = true ↔ r.Reaches env x := by
  have hvalue (t : Term) : (t.eval env).toOption = some x ↔ t.eval env = .ok x := by
    cases t.eval env <;> simp [Except.toOption]
  simp only [reaches, Bool.and_eq_true, decide_eq_true_eq, List.all_eq_true, bne_iff_ne, Ne, hvalue]
  exact ⟨fun h => ⟨h.1, h.2⟩, fun h => ⟨h.index, h.missed⟩⟩

/-- The interpretation for an assignment: words have their numbers, and an array has the number of
the read that looks at it at an index, and zeros where there is none. -/
def Assignment.model (env : Assignment) (reads : List Read) : Interpretation where
  word v := BitVec.ofNat v.width ((env v.name).getD 0)
  array v x :=
    match reads.find? fun r => r.array = v ∧ r.reaches env (.ofBitVec x) with
    | some r => BitVec.ofNat v.width ((env r.name).getD 0)
    | none => 0

namespace Path

variable {p : Path} {env : Assignment}

/-- The reads of a path are those of its constraints. -/
theorem mem_reads {r : Read} : r ∈ p.reads ↔ ∃ c ∈ p.constraints, r ∈ c.term.reads :=
  List.mem_flatMap

/-- The array has the number of a read where the read looks: what else looks there has its name. -/
theorem Unaliased.array_model (hu : p.Unaliased) {r : Read} (hr : r ∈ p.reads) {n : Nat}
    (hn : env r.name = some n) {x : BitVec r.array.role.indexWidth}
    (hx : r.Reaches env (.ofBitVec x)) :
    (env.model p.reads).array r.array x = BitVec.ofNat r.array.width n := by
  unfold Assignment.model
  simp only
  split
  · rename_i s hs
    have hfound := List.find?_some hs
    obtain ⟨harray, hreaches⟩ := of_decide_eq_true hfound
    have hname := hu.reads s (List.mem_of_find?_eq_some hs) r hr harray env _
      (Read.reaches_iff.mp hreaches) hx
    rw [hname, hn]
    rfl
  · rename_i hnone
    have hfalse := List.find?_eq_none.mp hnone r hr
    simp [Read.reaches_iff.mpr hx] at hfalse

/-- The read is of a location that the path has touched. -/
theorem WellFormed.exists_location (hp : p.WellFormed) {r : Read} (hr : r ∈ p.reads) :
    ∃ l ∈ p.memory, l.name = r.name := by
  obtain ⟨c, hc, hrc⟩ := mem_reads.mp hr
  obtain ⟨u, hu, hread⟩ := Term.mem_reads.mp hrc
  obtain ⟨l, a, rest, w, rfl, -, -, hname⟩ := Term.read?_eq_some hread
  exact ⟨l, (hp.terms c hc _ hu).2.1, hname.symm⟩

/-- The symbols in the constraints are symbols of the path. -/
theorem WellFormed.name_mem_of_mentions (hp : p.WellFormed) {c : Constraint}
    (hc : c ∈ p.constraints) {v : Variable} (hv : c.term.Mentions v) : v.name ∈ p.symbolNames := by
  rcases hv with hv | ⟨l, hl⟩
  · exact hp.lookup_mem hc hv rfl
  · exact hp.lookup_mem hc hl rfl

section Model

variable (hp : p.WellFormed) (hu : p.Unaliased)
  (hbound : ∀ name ∈ p.symbolNames, ∃ n, env name = some n)

include hp hu hbound

/-- The constraints are evaluated as they are meant under the model. -/
theorem follows_model {c : Constraint} (hc : c ∈ p.constraints) :
    (env.model p.reads).Follows env c.term where
  words v hv := by
    obtain ⟨n, hn⟩ := hbound v.name (hp.name_mem_of_mentions hc hv)
    refine ⟨n, hn, ?_⟩
    simp [Assignment.model, hn]
  elements r hr := by
    have hmem : r ∈ p.reads := mem_reads.mpr ⟨c, hc, hr⟩
    obtain ⟨n, hn⟩ := hbound r.name (mem_symbolNames.mpr (.inr (hp.exists_location hmem)))
    exact ⟨n, hn, fun x hx => hu.array_model hmem hn hx⟩

/-- The model gives what has a name the number of this name. -/
theorem gives_model {name : String} {n : Nat} (hn : env name = some n) :
    p.Gives (env.model p.reads) name n where
  words v _ hv := by simp [Assignment.model, hv, hn]
  elements r hr hname x hx hmissed := by
    obtain ⟨c, hc, hrc⟩ := mem_reads.mp hr
    have heval {t : Term} (ht : t ∈ c.term.parts) {y : BitVec r.array.role.indexWidth}
        (hy : t.Denotes (env.model p.reads) (.bits _ y)) : t.eval env = .ok (.ofBitVec y) :=
      (hy.computed ((hu.accesses c hc).of_mem ht)
        ((follows_model hp hu hbound hc).of_mem ht)).eval_eq rfl
    refine hu.array_model hr (hname ▸ hn) ⟨heval (Term.index_mem_parts hrc) hx, fun j hj => ?_⟩
    obtain ⟨y, hy, hne⟩ := hmissed j hj
    rw [heval (Term.stores_mem_parts hrc hj) hy, Ne, Except.ok.injEq, Value.ofBitVec_inj]
    exact hne

/-- A constraint has the truth value under the model that evaluation finds. -/
theorem denotes_model (hsorted : p.WellSorted) {c : Constraint} (hc : c ∈ p.constraints) {x : Bool}
    (hx : c.holds env = .ok x) : c.term.Denotes (env.model p.reads) (.bool x) := by
  obtain ⟨m, hm, hsort⟩ := (hsorted c hc).denotes (env.model p.reads)
  obtain ⟨y, rfl⟩ := Meaning.eq_bool_of_sort hsort
  have hcomputed := hm.computed (hu.accesses c hc) (follows_model hp hu hbound hc)
  have heval : c.term.eval env = .ok (.bool y) := hcomputed.eval_eq rfl
  obtain rfl : y = x := Except.ok.inj ((Constraint.holds_of_eval heval).symm.trans hx)
  exact hm

end Model

end Path

/-! ### Samples -/

namespace Sampling

/-- The search ends with a disagreement only at a sample on which there is one. -/
theorem exists_disagreement {a b : Path} {symbols : List Symbol}
    {candidates samples : List (List Nat)}
    (h : compareOn a b symbols candidates samples = .ok false) :
    ∃ choice ∈ samples, ∃ x y, x ≠ y ∧
      verdictOn a (bindings (·.a) symbols candidates choice) = .ok x ∧
      verdictOn b (bindings (·.b) symbols candidates choice) = .ok y := by
  induction samples with
  | nil => simp [compareOn, Oracle.Answer.ok] at h
  | cons choice samples ih =>
      rw [compareOn] at h
      cases hx : verdictOn a (bindings (·.a) symbols candidates choice) with
      | error e => simp [hx, Oracle.Answer.ok, Oracle.Answer.failed] at h
      | ok x =>
          cases hy : verdictOn b (bindings (·.b) symbols candidates choice) with
          | error e => simp [hx, hy, Oracle.Answer.ok, Oracle.Answer.failed] at h
          | ok y =>
              by_cases hxy : x = y
              · obtain ⟨d, hd, hrest⟩ := ih (by simpa [hx, hy, hxy] using h)
                exact ⟨d, List.mem_cons_of_mem _ hd, hrest⟩
              · exact ⟨choice, List.mem_cons_self, x, y, hxy, hx, hy⟩

/-- A verdict on a sample says whether all constraints hold there. -/
theorem allHold_of_verdictOn {p : Path} {bound : List (String × Nat)} {x : Bool}
    (h : verdictOn p bound = .ok x) :
    Constraint.allHold (assignment bound) p.constraints = .ok x := by
  unfold verdictOn at h
  split at h
  · cases h
    assumption
  · cases h

/-- A sample of the symbols on one side of a pairing is an input of the path there: under some
interpretation, what a symbol names has the number of the symbol, and the constraints have the
verdict on the sample. -/
theorem exists_model {p : Path} (hp : p.WellFormed) (hsorted : p.WellSorted) (hu : p.Unaliased)
    {side : Symbol → Option String} {symbols : List Symbol}
    (hnames : (symbols.filterMap side).Perm p.symbolNames) {candidates : List (List Nat)}
    {choice : List Nat} (hcandidates : candidates.length = symbols.length)
    (hchoice : choice.length = symbols.length) {x : Bool}
    (hx : verdictOn p (bindings side symbols candidates choice) = .ok x) :
    ∃ I, (∀ (i : Nat) s n name, symbols[i]? = some s → (sample candidates choice)[i]? = some n →
        side s = some name → p.Gives I name n) ∧
      (x = true → p.HoldsUnder I) ∧ (x = false → p.FailsUnder I) := by
  have hnodup : (symbols.filterMap side).Nodup :=
    hnames.nodup_iff.mpr (hp.nodup_symbolNames_iff.mpr hu.inputs)
  have hassigned {i : Nat} {s : Symbol} {name : String} {n : Nat} (hs : symbols[i]? = some s)
      (hn : (sample candidates choice)[i]? = some n) (hname : side s = some name) :=
    assignment_of_place hcandidates hchoice hnodup hs hname hn
  have hbound : ∀ name ∈ p.symbolNames,
      ∃ n, assignment (bindings side symbols candidates choice) name = some n :=
    fun name hmem => exists_assignment hcandidates hchoice (hnames.mem_iff.mpr hmem)
  generalize henv : assignment (bindings side symbols candidates choice) = env at hassigned hbound
  have hverdict := allHold_of_verdictOn hx
  rw [henv] at hverdict
  refine ⟨env.model p.reads, ?_, ?_, ?_⟩
  · intro i s n name hs hn hname
    exact Path.gives_model hp hu hbound (hassigned hs hn hname)
  · rintro rfl c hc
    exact Path.denotes_model hp hu hbound hsorted hc (Constraint.holds_of_allHold hverdict c hc)
  · rintro rfl
    obtain ⟨c, hc, hfails⟩ := Constraint.exists_fails_of_allHold hverdict
    exact ⟨c, hc, Path.denotes_model hp hu hbound hsorted hc hfails⟩

end Sampling

/-! ### Arrays of two bits -/

namespace Op

/-- An equation that is true has equal sides. -/
theorem Denotes.isChain_of_true {ms : List Meaning} {m : Meaning} (h : Denotes .eq [] ms m)
    (hm : m = .bool true) : ms.IsChain (· = ·) := by
  cases h with
  | eq hs hb =>
      cases hm
      exact hb.mp rfl
  | order ho => cases ho
  | binary ho => cases ho
  | folded ho => cases ho
  | unary ho => cases ho

/-- What is distinct is different in pairs. -/
theorem Denotes.pairwise_of_true {ms : List Meaning} {m : Meaning} (h : Denotes .distinct [] ms m)
    (hm : m = .bool true) : ms.Pairwise (· ≠ ·) := by
  cases h with
  | distinct hs hb =>
      cases hm
      exact hb.mp rfl
  | order ho => cases ho
  | binary ho => cases ho
  | folded ho => cases ho
  | unary ho => cases ho

end Op

namespace Term

/-- A read of an array of two bits, at a base and an address. -/
def readBitAt (array : String) (index : Term) (base : String) (address : Nat) : Term :=
  .apply (.access .read ⟨array ++ "[" ++ index.text ++ "]", base, address, -1, 0, 1⟩)
    [.array ⟨array, 1, .array 1⟩, index] 1

/-- An input of one bit. -/
def bit (name : String) : Term :=
  .input ⟨name, 1, .input⟩

/-- The other bit. -/
def otherBit (name : String) : Term :=
  .apply (.op .add []) [bit name, .literal 1 1] 1

theorem one_le_maxWidth : 1 ≤ maxWidth := by decide

/-- A bit is a bit-vector of width one. -/
theorem hasSort_bit (name : String) : (bit name).HasSort (.bits 1) :=
  .input (v := ⟨name, 1, .input⟩) Nat.one_pos one_le_maxWidth

/-- A binary operator on terms of one sort has the sort of its rank. -/
theorem hasSort_pair {o : Op} {s r : TermSort} (ho : o.HasRank [] [s, s] r) {t u : Term}
    (ht : t.HasSort s) (hu : u.HasSort s) : HasSort (.apply (.op o []) [t, u] r.width) r := by
  have hlen : [t, u].length = [s, s].length := rfl
  refine .apply hlen ?_ ho
  simp only [List.zip_cons_cons, List.zip_nil_right, List.mem_cons, List.not_mem_nil, or_false]
  rintro p (rfl | rfl)
  · exact ht
  · exact hu

/-- The other bit is a bit-vector of width one, too. -/
theorem hasSort_otherBit (name : String) : (otherBit name).HasSort (.bits 1) :=
  hasSort_pair (.folded 1 0 rfl) (hasSort_bit name) (.literal 1 Nat.one_pos one_le_maxWidth)

/-- An element that is read is a single bit. -/
theorem hasSort_readBitAt (array : String) {index : Term} (h : index.HasSort (.bits 1))
    (base : String) (address : Nat) : (readBitAt array index base address).HasSort (.bits 1) :=
  .select _ (.array (v := ⟨array, 1, .array 1⟩) ⟨Nat.one_pos, Nat.one_pos⟩
    ⟨one_le_maxWidth, one_le_maxWidth⟩) h

/-- A bit and the other one never have the same value. -/
theorem eval_otherBit_ne {name : String} {env : Assignment} {x : Value}
    (h : (bit name).eval env = .ok x) : (otherBit name).eval env ≠ .ok x := by
  have hargs : evalArgs env [bit name, .literal 1 1] = .ok [x, .ofNat 1 1] := by
    simp only [evalArgs, h, eval]
    rfl
  cases hn : env name with
  | none =>
      simp [bit, eval, symbolValue, hn] at h
  | some n =>
      obtain rfl : Value.ofBitVec (BitVec.ofNat 1 n) = x :=
        Except.ok.inj ((symbolValue_eq hn 1).symm.trans h)
      have hsum : strictValue .add [] 1 [.ofBitVec (BitVec.ofNat 1 n), .ofNat 1 1]
          = .ofBitVec (BitVec.ofNat 1 n + 1#1) := by
        rw [Value.ofNat_eq_ofBitVec]
        exact transformValues_of_folded (o := .add) rfl (BitVec.ofNat 1 n) [1#1]
      have hne : ∀ b : BitVec 1, b + 1#1 ≠ b := by decide
      rw [otherBit, eval_op env rfl [] 1 hargs, hsum, Ne, Except.ok.injEq, Value.ofBitVec_inj]
      exact hne _

/-- What a binary application denotes comes from what its arguments denote. -/
theorem Denotes.pair {I : Interpretation} {o : Op} {t u : Term} {w : Nat} {m : Meaning}
    (h : Denotes I (.apply (.op o []) [t, u] w) m) :
    ∃ n k, t.Denotes I n ∧ u.Denotes I k ∧ o.Denotes [] [n, k] m := by
  cases h with
  | apply hlen hargs ho =>
      obtain ⟨n, k, rfl⟩ := List.length_eq_two.mp hlen.symm
      exact ⟨n, k, hargs (t, n) (by simp), hargs (u, k) (by simp), ho⟩

/-- A read stands for the element of the array. -/
theorem Denotes.readBitAt {I : Interpretation} {array : String} {index : Term} {base : String}
    {address : Nat} {m : Meaning} (h : (readBitAt array index base address).Denotes I m) :
    ∃ x : BitVec 1, index.Denotes I (.bits 1 x) ∧ m = .bits 1 (I.array ⟨array, 1, .array 1⟩ x) := by
  cases h with
  | select l ha hj =>
      cases ha
      exact ⟨_, hj, rfl⟩

end Term

namespace Path

/-- The path that relates the elements of an array at a bit and at the other bit. -/
def relatesBits (name array input : String) (o : Op) : Path :=
  let x := Term.bit input
  let y := Term.otherBit input
  .ofTerms name [⟨array, 1, .array 1⟩, ⟨input, 1, .input⟩]
    [⟨array ++ "[" ++ x.text ++ "]", input, 0, -1, 0, 1⟩,
      ⟨array ++ "[" ++ y.text ++ "]", input, 1, -1, 0, 1⟩]
    [.apply (.op o []) [.readBitAt array x input 0, .readBitAt array y input 1] 0]

/-- The paths that relate two elements are well sorted. -/
theorem wellSorted_relatesBits (name array input : String) {o : Op} (ho : o = .eq ∨ o = .distinct) :
    (relatesBits name array input o).WellSorted := by
  have hrank : o.HasRank [] [.bits 1, .bits 1] .bool := by
    rcases ho with rfl | rfl
    · exact .eq (.bits 1) 0
    · exact .distinct (.bits 1) 0
  intro c hc
  rw [List.mem_singleton.mp hc]
  exact Term.hasSort_pair hrank (Term.hasSort_readBitAt _ (Term.hasSort_bit _) _ _)
    (Term.hasSort_readBitAt _ (Term.hasSort_otherBit _) _ _)

/-- The two elements have different indices whatever the bit is. -/
theorem unaliased_reads_relatesBits (name array input : String) (o : Op) :
    ∀ r ∈ (relatesBits name array input o).reads, ∀ s ∈ (relatesBits name array input o).reads,
      r.array = s.array → ∀ env x, r.Reaches env x → s.Reaches env x → r.name = s.name := by
  have hreads : (relatesBits name array input o).reads
      = [⟨⟨array, 1, .array 1⟩, [], .bit input, array ++ "[" ++ (Term.bit input).text ++ "]"⟩,
        ⟨⟨array, 1, .array 1⟩, [], .otherBit input,
          array ++ "[" ++ (Term.otherBit input).text ++ "]"⟩] := rfl
  rw [hreads]
  simp only [List.mem_cons, List.not_mem_nil, or_false]
  rintro r (rfl | rfl) s (rfl | rfl) - env x hr hs
  · rfl
  · exact absurd hs.index (Term.eval_otherBit_ne hr.index)
  · exact absurd hr.index (Term.eval_otherBit_ne hs.index)
  · rfl

/-- The path that asserts that a bit is zero, and that an array has different elements at this bit
and at zero. -/
def readsZeroTwice : Path :=
  .ofTerms "a" [⟨"m", 1, .array 1⟩, ⟨"x", 1, .input⟩]
    [⟨"m[x]", "x", 0, -1, 0, 1⟩, ⟨"m[(_ bv0 1)]", "", 0, -1, 0, 1⟩]
    [.apply (.op .eq []) [.bit "x", .literal 0 1] 0,
      .apply (.op .distinct [])
        [.readBitAt "m" (.bit "x") "x" 0, .readBitAt "m" (.literal 0 1) "" 0] 0]

/-- The path that reads one element twice is well sorted. -/
theorem wellSorted_readsZeroTwice : readsZeroTwice.WellSorted := by
  have hzero : Term.HasSort (.literal 0 1) (.bits 1) := .literal 0 Nat.one_pos Term.one_le_maxWidth
  simp only [WellSorted, readsZeroTwice, ofTerms, List.mapIdx_cons, List.mapIdx_nil, List.mem_cons,
    List.not_mem_nil, or_false]
  rintro c (rfl | rfl)
  · exact Term.hasSort_pair (.eq (.bits 1) 0) (Term.hasSort_bit _) hzero
  · exact Term.hasSort_pair (.distinct (.bits 1) 0)
      (Term.hasSort_readBitAt _ (Term.hasSort_bit _) _ _) (Term.hasSort_readBitAt _ hzero _ _)

/-- An array has one element at zero. -/
theorem not_holdsUnder_readsZeroTwice (I : Interpretation) : ¬ readsZeroTwice.HoldsUnder I := by
  intro h
  obtain ⟨m, n, hm, hn, heq⟩ := (h _ List.mem_cons_self).pair
  obtain ⟨j, k, hj, hk, hne⟩ := (h _ (List.mem_cons_of_mem _ List.mem_cons_self)).pair
  obtain ⟨x, hx, rfl⟩ := hj.readBitAt
  obtain ⟨y, hy, rfl⟩ := hk.readBitAt
  cases hm
  cases hn
  cases hx
  cases hy
  have hzero : I.word ⟨"x", 1, .input⟩ = 0#1 := by simpa using heq.isChain_of_true rfl
  have hapart : I.array ⟨"m", 1, .array 1⟩ (I.word ⟨"x", 1, .input⟩)
      ≠ I.array ⟨"m", 1, .array 1⟩ 0#1 := by simpa using hne.pairwise_of_true rfl
  exact hapart (congrArg _ hzero)

end Path

namespace Sampling

/-! ### When disagreements are real -/

/-- A disagreement on a sample is definite. For two paths with well-sorted constraints, in each of
which different names stand for different things: if the answer is that the paths differ, then some
input separates them. -/
theorem separation_definite {a b : Path} (ha : a.Accepted) (hb : b.Accepted) (hsa : a.WellSorted)
    (hsb : b.WellSorted) (hua : a.Unaliased) (hub : b.Unaliased) {rng : Generator} {limit : Nat}
    {ctx : Context} (h : (oracle rng limit).decide ctx (.ofPath a) (.ofPath b) = .ok false) :
    a.Separable b := by
  have hanswer : answer rng limit ctx (.ofPath a) (.ofPath b) = .ok false := h
  unfold answer at hanswer
  simp only [Profile.path_ofPath] at hanswer
  split at hanswer
  · simp [Oracle.Answer.ok, Oracle.Answer.failed] at hanswer
  · rename_i symbols hpair
    split at hanswer
    · simp [Oracle.Answer.ok, Oracle.Answer.failed] at hanswer
    · obtain ⟨choice, hchoice, x, y, hxy, hx, hy⟩ := exists_disagreement hanswer
      have hcandidates : (Symbol.candidates (.ofPath a) (.ofPath b) symbols).length
          = symbols.length := by simp [Symbol.candidates]
      have hlen := length_of_mem_choices hchoice
      obtain ⟨hnamesA, hnamesB⟩ := Symbol.names_of_pair ha.wellFormed hb.wellFormed hpair
      obtain ⟨I, hI, htrueA, hfalseA⟩ :=
        exists_model ha.wellFormed hsa hua hnamesA hcandidates hlen hx
      obtain ⟨J, hJ, htrueB, hfalseB⟩ :=
        exists_model hb.wellFormed hsb hub hnamesB hcandidates hlen hy
      refine ⟨symbols, I, J, hpair, ?_, ?_⟩
      · intro s hs
        obtain ⟨i, hi, rfl⟩ := List.getElem_of_mem hs
        have hplace :
            i < (sample (Symbol.candidates (.ofPath a) (.ofPath b) symbols) choice).length := by
          simp [sample, hcandidates, hlen, hi]
        have hs := List.getElem?_eq_getElem hi
        have hn := List.getElem?_eq_getElem hplace
        exact ⟨_, fun name => hI i _ _ name hs hn, fun name => hJ i _ _ name hs hn⟩
      · cases x with
        | true =>
            obtain rfl : y = false := by simpa using hxy.symm
            exact .inl ⟨htrueA rfl, hfalseB rfl⟩
        | false =>
            obtain rfl : y = true := by simpa using hxy.symm
            exact .inr ⟨hfalseA rfl, htrueB rfl⟩

/-- Two paths of which one asserts that the elements of an array are equal, and the other that they
are not. -/
theorem separation_definite_elements :
    let a := Path.relatesBits "a" "m" "x" .eq
    let b := Path.relatesBits "b" "n" "y" .distinct
    a.Accepted ∧ b.Accepted ∧ a.WellSorted ∧ b.WellSorted ∧ a.Unaliased ∧ b.Unaliased ∧
      (oracle .congruential defaultLimit).decide .live (.ofPath a) (.ofPath b) = .ok false ∧
      a.Separable b := by
  have ha : (Path.relatesBits "a" "m" "x" .eq).Accepted :=
    ⟨"(declare-const m (Array (_ BitVec 1) (_ BitVec 1))) (declare-const x (_ BitVec 1))
      (assert (= (select m x) (select m (bvadd x #b1))))", "a", Path.relatesBits "a" "m" "x" .eq,
      Path.parse_eq_ok (by decide +kernel), rfl⟩
  have hb : (Path.relatesBits "b" "n" "y" .distinct).Accepted :=
    ⟨"(declare-const n (Array (_ BitVec 1) (_ BitVec 1))) (declare-const y (_ BitVec 1))
      (assert (distinct (select n y) (select n (bvadd y #b1))))", "b",
      Path.relatesBits "b" "n" "y" .distinct, Path.parse_eq_ok (by decide +kernel), rfl⟩
  have hsa := Path.wellSorted_relatesBits "a" "m" "x" (.inl rfl)
  have hsb := Path.wellSorted_relatesBits "b" "n" "y" (.inr rfl)
  have hua : (Path.relatesBits "a" "m" "x" .eq).Unaliased :=
    ⟨by decide +kernel, by decide +kernel, Path.unaliased_reads_relatesBits _ _ _ _⟩
  have hub : (Path.relatesBits "b" "n" "y" .distinct).Unaliased :=
    ⟨by decide +kernel, by decide +kernel, Path.unaliased_reads_relatesBits _ _ _ _⟩
  have hanswer : (oracle .congruential defaultLimit).decide .live
      (.ofPath (Path.relatesBits "a" "m" "x" .eq))
      (.ofPath (Path.relatesBits "b" "n" "y" .distinct)) = .ok false :=
    decide_of_bitsDecide (by decide +kernel)
  exact ⟨ha, hb, hsa, hsb, hua, hub, hanswer, separation_definite ha hb hsa hsb hua hub hanswer⟩

/-- Two paths without solutions that are found to differ. The first reads an array under two names
at zero, and the sample on which they differ has different numbers for these names. -/
theorem separation_not_definite :
    ∃ a b, Path.parse "(declare-const m (Array (_ BitVec 1) (_ BitVec 1)))
        (declare-const x (_ BitVec 1)) (assert (= x #b0))
        (assert (distinct (select m x) (select m #b0)))" "a" = .ok a ∧
      Path.parse "(declare-const x (_ BitVec 1)) (assert false)" "b" = .ok b ∧
      a.WellSorted ∧ b.WellSorted ∧
      (oracle .congruential defaultLimit).decide .live (.ofPath a) (.ofPath b) = .ok false ∧
      ¬ a.Separable b := by
  have hfalse : (Path.ofTerms "b" [⟨"x", 1, .input⟩] [] [.truth false]).WellSorted := by
    intro c hc
    rw [List.mem_singleton.mp hc]
    exact .truth false
  refine ⟨Path.readsZeroTwice, .ofTerms "b" [⟨"x", 1, .input⟩] [] [.truth false],
    Path.parse_eq_ok (by decide +kernel), Path.parse_eq_ok (by decide +kernel),
    Path.wellSorted_readsZeroTwice, hfalse, decide_of_bitsDecide (by decide +kernel), ?_⟩
  rintro ⟨symbols, I, J, -, -, ⟨hholds, -⟩ | ⟨-, hholds⟩⟩
  · exact Path.not_holdsUnder_readsZeroTwice I hholds
  · have hdenotes := hholds ⟨0, .truth false⟩ List.mem_cons_self
    cases hdenotes

end Sampling

end Pathwise
