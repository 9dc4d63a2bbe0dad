import Pathwise.Proofs.Path.Steps
import Pathwise.Proofs.Term.Subterm

/-!
# Accepted paths are well formed

Building a path checks every declaration and every application, one at a time. This file says what
is left of these checks in the path that comes out.

* **Terms** (`Term.Fits`, `Term.WellFormed`): each symbol is declared and has the right role, each
  literal has a width, each application has the arguments and the width that its operator asks for.
* **Locations** (`Location.Numbered`): those at one address are numbered in the order in which they
  were touched.
* **Builders** (`Builder.WellFormed`): names are declared once, widths are between 1 and `maxWidth`,
  memory symbols have their locations, locations are numbered, and the constraints are well formed,
  numbered in their order and no conjunctions.
* **Steps** (`Builder.Ensures`): a step of building keeps builders well formed and only adds to
  them.

A path that is read from a text is well formed (`Accepted.wellFormed`).
-/

namespace Pathwise

namespace Term

/-- What is checked about the root of a term when it is built. -/
def Fits (declared : List Variable) (memory : List Location) : Term → Prop
  | input v => v ∈ declared ∧ v.role = .input
  | cell v l =>
    v ∈ declared ∧ v.role = .memory ∧ l ∈ memory ∧ l.name = v.name ∧ l.width = v.width
  | array v => v ∈ declared ∧ ∃ i, v.role = .array i
  | literal _ w => 0 < w ∧ w ≤ maxWidth
  | truth _ => True
  | apply (.op o is) args w =>
    o.isMemory = false ∧ o.arity.allows args.length ∧ Path.resultWidth o is args = .ok w
  | apply (.access k l) args w =>
    k.op.arity.allows args.length ∧ l ∈ memory ∧
      ∃ a as v, args = a :: as ∧ a.arrayOf? = some v ∧ w = if k = .read then v.width else 0
  | apply (.unknown _ _) args w => w = Path.firstWidth args

/-- Every subterm of a term fits the declared symbols and the touched locations. -/
def WellFormed (declared : List Variable) (memory : List Location) (t : Term) : Prop :=
  ∀ u ∈ t.parts, u.Fits declared memory

variable {declared declared' : List Variable} {memory memory' : List Location}

/-- A term is well formed if its root fits and its arguments are well formed. -/
theorem wellFormed_iff {t : Term} :
    t.WellFormed declared memory ↔
      t.Fits declared memory ∧ ∀ u ∈ t.args, u.WellFormed declared memory :=
  forall_parts_iff

/-- The root of a well-formed term fits. -/
theorem WellFormed.fits {t : Term} (h : t.WellFormed declared memory) : t.Fits declared memory :=
  (wellFormed_iff.mp h).1

/-- The arguments of a well-formed application are well formed. -/
theorem WellFormed.arg {h : Head} {args : List Term} {w : Nat} {t : Term}
    (hf : (apply h args w).WellFormed declared memory) (ht : t ∈ args) :
    t.WellFormed declared memory :=
  (wellFormed_iff.mp hf).2 t ht

/-- More symbols and more locations do no harm. -/
theorem Fits.mono {t : Term} (h : t.Fits declared memory) (hd : declared ⊆ declared')
    (hm : memory ⊆ memory') : t.Fits declared' memory' := by
  cases t with
  | input v => exact ⟨hd h.1, h.2⟩
  | cell v l => exact ⟨hd h.1, h.2.1, hm h.2.2.1, h.2.2.2⟩
  | array v => exact ⟨hd h.1, h.2⟩
  | literal n w => exact h
  | truth b => trivial
  | apply head args w =>
      cases head with
      | op o is => exact h
      | access k l => exact ⟨h.1, hm h.2.1, h.2.2⟩
      | unknown name is => exact h

/-- A term stays well formed when more is declared and touched. -/
theorem WellFormed.mono {t : Term} (h : t.WellFormed declared memory) (hd : declared ⊆ declared')
    (hm : memory ⊆ memory') : t.WellFormed declared' memory' :=
  fun u hu => (h u hu).mono hd hm

end Term

/-- The epoch of each location is the number of locations before it at the same address. -/
def Location.Numbered (memory : List Location) : Prop :=
  ∀ before l after, memory = before ++ l :: after →
    l.epoch = before.countP fun e => e.base == l.base && e.address == l.address

/-- What holds of all members of a list with those before them holds in a longer list if it holds of
the last member. -/
theorem forall_split_concat {α : Type} {P : List α → α → Prop} {xs : List α} {x : α}
    (h : ∀ before a after, xs = before ++ a :: after → P before a) (hx : P xs x) :
    ∀ before a after, xs ++ [x] = before ++ a :: after → P before a := by
  intro before a after heq
  rcases List.eq_nil_or_concat after with rfl | ⟨rest, last, rfl⟩
  · obtain ⟨rfl, hlast⟩ := List.append_inj' heq rfl
    cases hlast
    exact hx
  · rw [List.concat_eq_append, ← List.cons_append, ← List.append_assoc] at heq
    exact h before a rest (List.append_inj' heq rfl).1

namespace Location

variable {memory : List Location}

/-- One more location keeps the numbers right if its epoch counts those before it at its address. -/
theorem Numbered.concat (h : Numbered memory) {l : Location}
    (hl : l.epoch = memory.countP fun e => e.base == l.base && e.address == l.address) :
    Numbered (memory ++ [l]) :=
  forall_split_concat h hl

/-- Of two locations at one address, the earlier has the lower epoch. -/
theorem Numbered.epoch_lt (h : Numbered memory) {before between after : List Location}
    {l m : Location} (heq : memory = before ++ l :: (between ++ m :: after))
    (hbase : l.base = m.base) (haddress : l.address = m.address) : l.epoch < m.epoch := by
  have hl := h before l (between ++ m :: after) heq
  have hm := h (before ++ l :: between) m after (by simp [heq])
  rw [hl, hm, List.countP_append, List.countP_cons_of_pos (by simp [hbase, haddress]), hbase,
    haddress]
  omega

/-- Numbered locations with the same address and the same epoch are the same. -/
theorem Numbered.eq_of_epoch (h : Numbered memory) {l m : Location} (hl : l ∈ memory)
    (hm : m ∈ memory) (hbase : l.base = m.base) (haddress : l.address = m.address)
    (hepoch : l.epoch = m.epoch) : l = m := by
  obtain ⟨before, after, rfl⟩ := List.append_of_mem hl
  rcases List.mem_append.mp hm with hm | hm
  · obtain ⟨xs, ys, rfl⟩ := List.append_of_mem hm
    have hlt := h.epoch_lt (List.append_assoc _ _ _) hbase.symm haddress.symm
    omega
  · rcases List.mem_cons.mp hm with rfl | hm
    · rfl
    · obtain ⟨ys, zs, rfl⟩ := List.append_of_mem hm
      have hlt := h.epoch_lt rfl hbase haddress
      omega

end Location

namespace Path

/-! ### Widths -/

/-- An extraction lies within its operand, and its width is the number of bits taken out. -/
theorem resultWidth_extract {hi lo w : Nat} {args : List Term}
    (h : resultWidth .extract [hi, lo] args = .ok w) :
    lo ≤ hi ∧ hi < firstWidth args ∧ w = hi - lo + 1 := by
  simp only [resultWidth] at h
  split at h
  · cases h
  · cases h
    omega

/-- An extension is wider than its operand by its index. -/
theorem resultWidth_extend {o : Op} (ho : o = .zeroExtend ∨ o = .signExtend) {n w : Nat}
    {args : List Term} (h : resultWidth o [n] args = .ok w) : w = firstWidth args + n := by
  rcases ho with rfl | rfl <;>
  · simp only [resultWidth] at h
    split at h
    · cases h
    · cases h
      rfl

namespace Builder

/-- What the commands carried out so far have established. -/
structure WellFormed (b : Builder) : Prop where
  names : (b.declared.map (·.name)).Nodup
  widths : ∀ v ∈ b.declared, 0 < v.width ∧ v.width ≤ maxWidth
  cells : ∀ v ∈ b.declared, v.role = .memory →
    ∃ l, b.cells.lookup v.name = some l ∧ l ∈ b.memory ∧ l.name = v.name ∧ l.width = v.width
  latest : ∀ e ∈ b.latest, e.2 ∈ b.memory
  epochs : Location.Numbered b.memory
  terms : ∀ c ∈ b.constraints, c.term.WellFormed b.declared b.memory
  indices : b.constraints.map (·.index) = List.range b.constraints.length
  split : ∀ c ∈ b.constraints, c.term.op? ≠ some .and

/-- Nothing is declared or asserted at first, so nothing is wrong. -/
theorem wellFormed_empty : empty.WellFormed where
  names := List.nodup_nil
  widths := by simp [empty]
  cells := by simp [empty]
  latest := by simp [empty]
  epochs := by simp [Location.Numbered, empty]
  terms := by simp [empty]
  indices := by simp [empty]
  split := by simp [empty]

/-- A later builder has all symbols and locations of an earlier one. -/
structure Extends (b b' : Builder) : Prop where
  declared : b.declared ⊆ b'.declared
  memory : b.memory ⊆ b'.memory

/-- A builder extends itself. -/
theorem Extends.refl (b : Builder) : b.Extends b :=
  ⟨List.Subset.refl _, List.Subset.refl _⟩

/-- Additions to additions are additions. -/
theorem Extends.trans {b c d : Builder} (h : b.Extends c) (h' : c.Extends d) : b.Extends d :=
  ⟨List.Subset.trans h.declared h'.declared, List.Subset.trans h.memory h'.memory⟩

/-- The term is well formed over what has been built so far. -/
def Has (b : Builder) (t : Term) : Prop :=
  t.WellFormed b.declared b.memory

/-- What a builder has, it still has when more is added. -/
theorem Has.mono {b b' : Builder} {t : Term} (h : b.Has t) (hb : b.Extends b') : b'.Has t :=
  Term.WellFormed.mono h hb.declared hb.memory

/-- From this builder, a step can only lead to well-formed builders that extend it, with results
that have a given property there. -/
def Ensures {α : Type} (b : Builder) (m : Build α) (Q : α → Builder → Prop) : Prop :=
  ∀ a b', m.run b = .ok (a, b') → b'.WellFormed ∧ b.Extends b' ∧ Q a b'

variable {b b' : Builder}

/-! ### Atoms -/

/-- There is no number without digits. -/
theorem signed?_nil (base : Nat) : Text.signed? base [] = none := rfl

/-- A literal in base two or sixteen is well formed, since no digits give no literal. -/
theorem has_of_radixLiteral? {base bits : Nat} {digits : List Char} {t : Term} (hbits : 0 < bits)
    (h : radixLiteral? base bits digits = some t) : b.Has t := by
  simp only [radixLiteral?] at h
  split at h
  · cases h
  · rename_i hwidth
    obtain ⟨n, hn, rfl⟩ := Option.map_eq_some_iff.mp h
    have hdigits : digits ≠ [] := by
      rintro rfl
      rw [signed?_nil] at hn
      cases hn
    have hpos : 0 < digits.length * bits :=
      Nat.mul_pos (List.length_pos_iff.mpr hdigits) hbits
    refine Term.wellFormed_iff.mpr ⟨⟨hpos, by omega⟩, ?_⟩
    simp [Term.args]

/-- A literal that is written with its width has a width that a literal may have. -/
theorem has_of_indexedLiteral {node : SExpr} {t : Term} (h : indexedLiteral node = .ok t) :
    b.Has t := by
  simp only [indexedLiteral] at h
  repeat' split at h
  all_goals try cases h
  rename_i hwidth _ _ _ _ _
  simp only [Option.filter_eq_some_iff, Bool.and_eq_true, decide_eq_true_eq] at hwidth
  refine Term.wellFormed_iff.mpr ⟨hwidth.2, ?_⟩
  simp [Term.args]

/-- A symbol that is found by its name is declared under that name. -/
theorem symbol?_eq_some {name : String} {v : Variable} (h : b.symbol? name = some v) :
    v ∈ b.declared ∧ v.name = name :=
  ⟨List.mem_of_find?_eq_some h, by simpa using List.find?_some h⟩

/-- The term of a declared symbol is well formed, also of a memory symbol, whose location is
known. -/
theorem WellFormed.has_of_symbolTerm? (hb : b.WellFormed) {name : String} {t : Term}
    (h : b.symbolTerm? name = some t) : b.Has t := by
  obtain ⟨v, hv, rfl⟩ := Option.map_eq_some_iff.mp h
  obtain ⟨hmem, rfl⟩ := symbol?_eq_some hv
  cases hrole : v.role with
  | input => exact Term.wellFormed_iff.mpr ⟨⟨hmem, hrole⟩, by simp [Term.args]⟩
  | array i => exact Term.wellFormed_iff.mpr ⟨⟨hmem, i, hrole⟩, by simp [Term.args]⟩
  | memory =>
      -- a memory symbol always has its location, so it is never taken for an input
      obtain ⟨l, hl, hlmem, hname, hwidth⟩ := hb.cells v hmem hrole
      simp only [hl]
      exact Term.wellFormed_iff.mpr ⟨⟨hmem, hrole, hlmem, hname, hwidth⟩, by simp [Term.args]⟩

/-- The term of an atom is well formed where the terms in scope are. -/
theorem WellFormed.has_of_atomTerm (hb : b.WellFormed) {scope : Scope}
    (hscope : ∀ d ∈ scope, b.Has d.2) {text : String} {t : Term}
    (h : AtomTerm scope b text t) : b.Has t := by
  cases h with
  | truth v => exact Term.wellFormed_iff.mpr ⟨trivial, by simp [Term.args]⟩
  | hexadecimal _ ht => exact has_of_radixLiteral? (by decide) ht
  | binary _ ht => exact has_of_radixLiteral? (by decide) ht
  | definition hd => exact hscope _ hd
  | symbol _ ht => exact hb.has_of_symbolTerm? ht

/-! ### Applications -/

/-- Touching an array keeps a builder well formed, and the location that is touched is one of its
locations. -/
theorem ensures_touch (hb : b.WellFormed) (array : Variable) (index : Term) (kind : AccessKind) :
    b.Ensures (touch array index kind) fun l b' => l ∈ b'.memory := by
  intro l b' hrun
  rcases touch_cases hrun with ⟨-, hl, rfl⟩ | ⟨-, hbase, haddress, hepoch, rfl⟩
  · exact ⟨hb, Extends.refl _, hb.latest _ (mem_of_lookup hl)⟩
  · have hnumbered : l.epoch = b.epoch l.base l.address := by rw [hepoch, hbase, haddress]
    refine ⟨⟨hb.names, hb.widths, ?_, ?_, hb.epochs.concat hnumbered, ?_, hb.indices, hb.split⟩,
      ⟨List.Subset.refl _, List.subset_append_left _ _⟩, by simp⟩
    · intro v hv hrole
      obtain ⟨m, hm, hmem, hfits⟩ := hb.cells v hv hrole
      exact ⟨m, hm, List.mem_append_left _ hmem, hfits⟩
    · intro e he
      rcases List.mem_cons.mp he with rfl | he
      · simp
      · exact List.mem_append_left _ (hb.latest e he)
    · intro c hc
      exact (hb.terms c hc).mono (List.Subset.refl _) (List.subset_append_left _ _)

/-- An application whose arguments are well formed leaves a well-formed builder and a well-formed
term. -/
theorem WellFormed.applies (hb : b.WellFormed) {o? : Option Op} {name : String}
    {indices : List Nat} {args : List Term} (hargs : ∀ t ∈ args, b.Has t) {t : Term}
    (h : Applies o? name indices args b t b') : b'.WellFormed ∧ b.Extends b' ∧ b'.Has t := by
  cases h with
  | unknown _ => exact ⟨hb, Extends.refl b, Term.wellFormed_iff.mpr ⟨rfl, hargs⟩⟩
  | access harity hform harray htouch =>
      obtain ⟨hb', hext, hl⟩ := ensures_touch hb _ _ _ _ _ htouch
      refine ⟨hb', hext, Term.wellFormed_iff.mpr ⟨⟨harity, hl, ?_⟩, ?_⟩⟩
      · exact ⟨_, _, _, hform, harray, rfl⟩
      · exact fun u hu => (hargs u hu).mono hext
  | op _ hmemory harity hw =>
      exact ⟨hb, Extends.refl b, Term.wellFormed_iff.mpr ⟨⟨hmemory, harity, hw⟩, hargs⟩⟩

/-! ### Expressions -/

/-- A step that converts expressions in a scope: where all definitions of the scope are well formed,
its results have a given property. -/
def EnsuresIn {α : Type} (scope : Scope) (m : Build α) (Q : α → Builder → Prop) : Prop :=
  ∀ b : Builder, b.WellFormed → (∀ d ∈ scope, b.Has d.2) → b.Ensures m Q

/-- Converting an expression gives a well-formed term. -/
theorem ensures_convert (scope : Scope) (e : SExpr) :
    EnsuresIn scope (convert scope e) fun t b => b.Has t := by
  intro b hb hscope t b' hrun
  refine convert_induction
    (P := fun scope b _ t b' => b.WellFormed → (∀ d ∈ scope, b.Has d.2) →
      b'.WellFormed ∧ b.Extends b' ∧ b'.Has t)
    (D := fun scope b _ ds b' => b.WellFormed → (∀ d ∈ scope, b.Has d.2) →
      b'.WellFormed ∧ b.Extends b' ∧ ∀ d ∈ ds, b'.Has d.2)
    (A := fun scope b _ ts b' => b.WellFormed → (∀ d ∈ scope, b.Has d.2) →
      b'.WellFormed ∧ b.Extends b' ∧ ∀ t ∈ ts, b'.Has t)
    ?atom ?literal ?binding ?application ?noDefinition ?definition ?noArgument ?argument hrun hb
    hscope
  case atom =>
    intro scope b line text t ht hb hscope
    exact ⟨hb, Extends.refl b, hb.has_of_atomTerm hscope ht⟩
  case literal =>
    intro scope b line headLine rest t ht hb hscope
    exact ⟨hb, Extends.refl b, has_of_indexedLiteral ht⟩
  case binding =>
    intro scope b c b' line headLine line' definitions body inner t _ ihdef ihbody hb hscope
    obtain ⟨hc, hbc, hinner⟩ := ihdef hb hscope
    have hboth : ∀ d ∈ inner ++ scope, c.Has d.2 := by
      intro d hd
      rcases List.mem_append.mp hd with hd | hd
      · exact hinner d hd
      · exact (hscope d hd).mono hbc
    obtain ⟨hb', hcb', ht⟩ := ihbody hc hboth
    exact ⟨hb', hbc.trans hcb', ht⟩
  case application =>
    intro scope b c b' line head rest name indices o? args t _ _ ihargs happlies hb hscope
    obtain ⟨hc, hbc, hargs⟩ := ihargs hb hscope
    obtain ⟨hb', hcb', ht⟩ := hc.applies hargs happlies
    exact ⟨hb', hbc.trans hcb', ht⟩
  case noDefinition =>
    intro scope b hb hscope
    exact ⟨hb, Extends.refl b, by simp⟩
  case definition =>
    intro scope b c b' line line' name e definitions t later _ ih ihrest hb hscope
    obtain ⟨hc, hbc, ht⟩ := ih hb hscope
    obtain ⟨hb', hcb', hlater⟩ := ihrest hc fun d hd => (hscope d hd).mono hbc
    refine ⟨hb', hbc.trans hcb', fun d hd => ?_⟩
    rcases List.mem_append.mp hd with hd | hd
    · exact hlater d hd
    · rw [List.mem_singleton.mp hd]
      exact ht.mono hcb'
  case noArgument =>
    intro scope b hb hscope
    exact ⟨hb, Extends.refl b, by simp⟩
  case argument =>
    intro scope b c b' e es t ts _ ih ihrest hb hscope
    obtain ⟨hc, hbc, ht⟩ := ih hb hscope
    obtain ⟨hb', hcb', hts⟩ := ihrest hc fun d hd => (hscope d hd).mono hbc
    exact ⟨hb', hbc.trans hcb', List.forall_mem_cons.mpr ⟨ht.mono hcb', hts⟩⟩

/-! ### Declarations -/

/-- A name that is not found is not declared. -/
theorem name_not_mem {name : String} (h : b.symbol? name = none) :
    name ∉ b.declared.map (·.name) := by
  simpa [symbol?] using h

/-- Declaring a new symbol with a width. A memory symbol comes with its location. -/
theorem WellFormed.declare (hb : b.WellFormed) {v : Variable} {memory : List Location}
    {cells : List (String × Location)} (hname : b.symbol? v.name = none)
    (hwidth : 0 < v.width ∧ v.width ≤ maxWidth) (hmemory : b.memory ⊆ memory)
    (hepochs : Location.Numbered memory)
    (hcells : ∀ name, name ≠ v.name → cells.lookup name = b.cells.lookup name)
    (hcell : v.role = .memory →
      ∃ l, cells.lookup v.name = some l ∧ l ∈ memory ∧ l.name = v.name ∧ l.width = v.width) :
    WellFormed { b with declared := b.declared ++ [v], memory := memory, cells := cells } where
  names := by
    have hnew := name_not_mem hname
    simp only [List.map_append, List.map_cons, List.map_nil]
    exact List.nodup_append.mpr ⟨hb.names, by simp, by grind⟩
  widths u hu := by
    rcases List.mem_append.mp hu with hu | hu
    · exact hb.widths u hu
    · rw [List.mem_singleton.mp hu]
      exact hwidth
  cells u hu hrole := by
    rcases List.mem_append.mp hu with hu | hu
    · obtain ⟨l, hl, hmem, hl'⟩ := hb.cells u hu hrole
      have hne : u.name ≠ v.name := by
        intro h
        exact name_not_mem hname (List.mem_map.mpr ⟨u, hu, h⟩)
      exact ⟨l, (hcells u.name hne).trans hl, hmemory hmem, hl'⟩
    · rw [List.mem_singleton.mp hu] at hrole ⊢
      exact hcell hrole
  latest e he := hmemory (hb.latest e he)
  epochs := hepochs
  terms c hc := (hb.terms c hc).mono (List.subset_append_left _ _) hmemory
  indices := hb.indices
  split := hb.split

/-- A declaration keeps builders well formed. -/
theorem ensures_declare (hb : b.WellFormed) (line : Nat) (name sort : SExpr) :
    b.Ensures (declare line name sort) fun _ _ => True := by
  intro _ b' hrun
  obtain ⟨l, v, -, hname, hwidth, ⟨hrole, rfl⟩ | ⟨m, hm, hmwidth, hepoch, rfl⟩⟩ :=
    declare_cases hrun
  · refine ⟨?_, ⟨List.subset_append_left _ _, List.Subset.refl _⟩, trivial⟩
    exact hb.declare hname hwidth (List.Subset.refl _) hb.epochs (fun _ _ => rfl)
      fun hmemory => absurd hmemory hrole
  · refine ⟨?_, ⟨List.subset_append_left _ _, List.subset_append_left _ _⟩, trivial⟩
    refine hb.declare hname hwidth (List.subset_append_left _ _) (hb.epochs.concat hepoch) ?_
      fun _ => ?_
    · intro other hne
      rw [List.lookup_cons, beq_eq_false_iff_ne.mpr hne]
    · exact ⟨m, List.lookup_cons_self, by simp, hm, hmwidth⟩

/-! ### Commands -/

/-- What a conjunction is split into are subterms of it. -/
theorem mem_parts_of_mem_conjuncts (t : Term) : ∀ u ∈ conjuncts t, u ∈ t.parts := by
  refine conjuncts.induct (fun t => ∀ u ∈ conjuncts t, u ∈ t.parts)
    (fun ts => ∀ u ∈ conjunctsAll ts, ∃ t ∈ ts, u ∈ t.parts) ?_ ?_ ?_ ?_ t
  · intro indices args width ih u hu
    rw [conjuncts] at hu
    obtain ⟨t, ht, hut⟩ := ih u hu
    exact Term.mem_parts_apply ht hut
  · intro t hand u hu
    rw [conjuncts] at hu
    · rw [List.mem_singleton.mp hu]
      exact Term.mem_parts_self t
    · exact hand
  · intro u hu
    simp [conjunctsAll] at hu
  · intro t ts ih ihrest u hu
    rw [conjunctsAll] at hu
    rcases List.mem_append.mp hu with hu | hu
    · exact ⟨t, List.mem_cons_self, ih u hu⟩
    · obtain ⟨s, hs, hus⟩ := ihrest u hu
      exact ⟨s, List.mem_cons_of_mem _ hs, hus⟩

/-- The conjuncts of a well-formed term are well formed. -/
theorem has_of_mem_conjuncts (t : Term) (ht : b.Has t) : ∀ u ∈ conjuncts t, b.Has u :=
  fun u hu s hs => ht s (Term.parts_subset t u (mem_parts_of_mem_conjuncts t u hu) hs)

/-- Splitting goes on until no part is a conjunction. -/
theorem op?_of_mem_conjuncts (t : Term) : ∀ u ∈ conjuncts t, u.op? ≠ some .and := by
  refine conjuncts.induct (fun t => ∀ u ∈ conjuncts t, u.op? ≠ some .and)
    (fun ts => ∀ u ∈ conjunctsAll ts, u.op? ≠ some .and) ?_ ?_ ?_ ?_ t
  · intro indices args width ih
    rw [conjuncts]
    exact ih
  · intro t hand u hu
    rw [conjuncts] at hu
    · rw [List.mem_singleton.mp hu]
      intro hop
      cases t with
      | apply head args w =>
          cases head with
          | op o is =>
              cases hop
              exact hand is args w rfl
          | access k l => cases k <;> cases hop
          | unknown name is => cases hop
      | _ => cases hop
    · exact hand
  · intro u hu
    simp [conjunctsAll] at hu
  · intro t ts ih ihrest u hu
    rw [conjunctsAll] at hu
    rcases List.mem_append.mp hu with hu | hu
    · exact ih u hu
    · exact ihrest u hu

/-- Adding the conjuncts of a term, with the next numbers. -/
theorem WellFormed.assert (hb : b.WellFormed) {t : Term} (ht : b.Has t) :
    WellFormed { b with
      constraints := b.constraints ++ numberedFrom b.constraints.length (conjuncts t) } := by
  refine ⟨hb.names, hb.widths, hb.cells, hb.latest, hb.epochs, ?_, ?_, ?_⟩
  · intro c hc
    rcases List.mem_append.mp hc with hc | hc
    · exact hb.terms c hc
    · exact has_of_mem_conjuncts t ht _ (term_mem_of_mem_numberedFrom hc)
  · simp only [List.map_append, hb.indices, map_index_numberedFrom, List.length_append,
      length_numberedFrom, List.range_eq_range', ← List.range'_append_1, Nat.zero_add]
  · intro c hc
    rcases List.mem_append.mp hc with hc | hc
    · exact hb.split c hc
    · exact op?_of_mem_conjuncts t _ (term_mem_of_mem_numberedFrom hc)

/-- A command keeps builders well formed. -/
theorem ensures_command (hb : b.WellFormed) (node : SExpr) :
    b.Ensures (command node) fun _ _ => True := by
  intro _ b' hrun
  rcases command_cases hrun with ⟨-, line, name, sort, -, hdeclare⟩ |
    ⟨-, line, first, e, t, c, -, hconvert, hassert⟩ | ⟨-, rfl⟩
  · exact ensures_declare hb line name sort _ _ hdeclare
  · obtain ⟨hc, hbc, ht⟩ := ensures_convert [] e b hb (by simp) t c hconvert
    obtain ⟨-, rfl⟩ := assert_cases hassert
    exact ⟨hc.assert ht, hbc.trans ⟨List.Subset.refl _, List.Subset.refl _⟩, trivial⟩
  · exact ⟨hb, Extends.refl _, trivial⟩

/-- Commands one after the other keep builders well formed. -/
theorem ensures_commands (hb : b.WellFormed) (nodes : List SExpr) :
    b.Ensures (commands nodes) fun _ _ => True := by
  intro _ b' hrun
  have hboth : b'.WellFormed ∧ b.Extends b' := by
    refine commands_induction (I := fun c => c.WellFormed ∧ b.Extends c) ?_ ⟨hb, .refl b⟩ hrun
    rintro node - c d ⟨hc, hbc⟩ hcommand
    obtain ⟨hd, hcd, -⟩ := ensures_command hc node _ _ hcommand
    exact ⟨hd, hbc.trans hcd⟩
  exact ⟨hboth.1, hboth.2, trivial⟩

end Builder

/-! ### Paths -/

/-- What reading a path establishes. -/
structure WellFormed (p : Path) : Prop where
  names : (p.declared.map (·.name)).Nodup
  widths : ∀ v ∈ p.declared, 0 < v.width ∧ v.width ≤ maxWidth
  epochs : Location.Numbered p.memory
  terms : ∀ c ∈ p.constraints, c.term.WellFormed p.declared p.memory
  indices : p.constraints.map (·.index) = List.range p.constraints.length
  split : ∀ c ∈ p.constraints, c.term.op? ≠ some .and

/-- The path was read from a text. Its index and its source may have been set afterwards. -/
def Accepted (p : Path) : Prop :=
  ∃ src name q, parse src name = .ok q ∧ p = { q with index := p.index, source := p.source }

/-- What is built from a text is well formed. -/
theorem wellFormed_of_build {body : List Char} {b : Builder} (h : build body = .ok b) :
    b.WellFormed := by
  unfold build at h
  split at h
  · cases h
  · rename_i nodes _
    split at h
    · cases h
    · rename_i b' hrun
      cases h
      exact (Builder.ensures_commands Builder.wellFormed_empty nodes _ _ hrun).1

/-- What is read from a source is well formed. -/
theorem wellFormed_of_parse {src name : String} {p : Path} (h : parse src name = .ok p) :
    p.WellFormed := by
  unfold parse at h
  simp only at h
  split at h
  · cases h
  · rename_i b hbuild
    cases h
    obtain ⟨hnames, hwidths, -, -, hepochs, hterms, hindices, hsplit⟩ := wellFormed_of_build hbuild
    exact ⟨hnames, hwidths, hepochs, hterms, hindices, hsplit⟩

/-- **Accepted paths are well formed.** -/
theorem Accepted.wellFormed {p : Path} (h : p.Accepted) : p.WellFormed := by
  obtain ⟨src, name, q, hq, hp⟩ := h
  obtain ⟨hnames, hwidths, hepochs, hterms, hindices, hsplit⟩ := wellFormed_of_parse hq
  rw [hp]
  exact ⟨hnames, hwidths, hepochs, hterms, hindices, hsplit⟩

/-- A result that passes a test is there. -/
theorem exists_ok_of_any {ε α : Type} {r : Except ε α} {f : α → Bool}
    (h : r.toOption.any f = true) : ∃ a, r = .ok a ∧ f a = true := by
  cases r with
  | error e => cases h
  | ok a => exact ⟨a, rfl, h⟩

/-- A text whose path has a property that can be computed. -/
theorem exists_of_parse {src name : String} {f : Path → Bool}
    (h : (parse src name).toOption.any f = true) : ∃ p, parse src name = .ok p ∧ f p = true :=
  exists_ok_of_any h

/-- Whether a source is read as a path can be computed without comparing refusals. -/
theorem parse_eq_ok {src name : String} {p : Path} (h : (parse src name).toOption = some p) :
    parse src name = .ok p := by
  cases hparse : parse src name with
  | error e => simp [hparse, Except.toOption] at h
  | ok q => simpa [hparse, Except.toOption] using h

/-- A path that was read is accepted. -/
theorem Accepted.of_parse {src name : String} {p : Path} (h : parse src name = .ok p) :
    p.Accepted :=
  ⟨src, name, p, h, rfl⟩

/-- The inputs are the declared symbols in the role of an input. -/
theorem mem_inputs {p : Path} {v : Variable} :
    v ∈ p.inputs ↔ v ∈ p.declared ∧ v.role = .input := by
  simp [inputs]

/-- The inputs of a well-formed path have different names. -/
theorem WellFormed.inputs_nodup {p : Path} (hp : p.WellFormed) :
    (p.inputs.map (·.name)).Nodup :=
  hp.names.sublist (List.filter_sublist.map _)

/-- The inputs of a well-formed path have the widths of bit-vectors. -/
theorem WellFormed.input_width {p : Path} (hp : p.WellFormed) {v : Variable} (hv : v ∈ p.inputs) :
    0 < v.width ∧ v.width ≤ maxWidth :=
  hp.widths v (mem_inputs.mp hv).1

end Path

end Pathwise
