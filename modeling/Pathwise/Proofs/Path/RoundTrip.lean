import Mathlib.Data.List.Nodup
import Pathwise.Proofs.Path.Provenance
import Pathwise.Proofs.Profile.Content
import Pathwise.Proofs.Term.Spelling

/-!
# Constraints can be read back

The text of a term is SMT-LIB again. Reading it and converting it where the same symbols are
declared gives the term back, up to the locations, which depend on what was touched before.

* **Steps that succeed** (`Builder.Succeeds`): where all symbols are declared and memory symbols
  have their locations, a step succeeds and leaves the symbols as they are.
* **Applications** (`Path.convert_application`, `Builder.succeeds_applyHead`): the expression of an
  application is converted to one of the same head, argument by argument.
* **Terms** (`Builder.succeeds_convert_node`): the expression of a term is converted to that term.
* **Constraints** (`Path.constraint_reads_back`): so every part of a constraint is read back from
  its text, if the source has no quotes, no indexed operators without indices, and its literals fit.
-/

namespace Pathwise

open Pathwise.Path

namespace Path.Builder

/-! ### Steps that succeed -/

/-- A builder in which the given symbols are declared, and memory symbols have locations. -/
structure Declares (declared : List Variable) (b : Builder) : Prop where
  symbols : b.declared = declared
  names : (declared.map (·.name)).Nodup
  cells : ∀ v ∈ declared, v.role = .memory → ∃ l, b.cells.lookup v.name = some l

/-- A well-formed builder declares its symbols. -/
theorem WellFormed.declares {b : Builder} (hb : b.WellFormed) : b.Declares b.declared := by
  refine ⟨rfl, hb.names, fun v hv hrole => ?_⟩
  obtain ⟨l, hl, -⟩ := hb.cells v hv hrole
  exact ⟨l, hl⟩

/-- A step that succeeds where the given symbols are declared, leaves them as they are, and has
results with a given property. -/
def Succeeds {α : Type} (declared : List Variable) (m : Build α) (Q : α → Prop) : Prop :=
  ∀ b, b.Declares declared → ∃ a b', m.run b = .ok (a, b') ∧ b'.Declares declared ∧ Q a

variable {α β : Type} {declared : List Variable} {memory : List Location}

/-- Steps one after the other succeed if the second does on all results of the first. -/
theorem Succeeds.bind {m : Build α} {f : α → Build β} {Q : α → Prop} {R : β → Prop}
    (hm : Succeeds declared m Q) (hf : ∀ a, Q a → Succeeds declared (f a) R) :
    Succeeds declared (m >>= f) R := by
  intro b hb
  obtain ⟨a, c, hfirst, hc, hQ⟩ := hm b hb
  obtain ⟨r, d, hrest, hd, hR⟩ := hf a hQ c hc
  refine ⟨r, d, ?_, hd, hR⟩
  rw [StateT.run_bind, hfirst]
  exact hrest

/-- A step that only returns succeeds. -/
theorem succeeds_pure {Q : α → Prop} {a : α} (hQ : Q a) : Succeeds declared (pure a) Q :=
  fun b hb => ⟨a, b, rfl, hb, hQ⟩

/-- Reading the builder succeeds. -/
theorem succeeds_get : Succeeds declared get (·.Declares declared) :=
  fun b hb => ⟨b, b, rfl, hb, hb⟩

/-- Replacing the builder succeeds if the new one declares the same symbols. -/
theorem succeeds_set {b : Builder} (hb : b.Declares declared) :
    Succeeds declared (set b) fun _ => True :=
  fun _ _ => ⟨(), b, rfl, hb, trivial⟩

/-! ### Symbols -/

/-- The term for a declared symbol, without its location. -/
def bareSymbol (v : Variable) : Term :=
  match v.role with
  | .input => .input v
  | .array _ => .array v
  | .memory => .cell v default

/-- A declared symbol is found by its name. -/
theorem Declares.symbol? {b : Builder} (hb : b.Declares declared) {v : Variable}
    (hv : v ∈ declared) : b.symbol? v.name = some v := by
  have hv' : v ∈ b.declared := hb.symbols ▸ hv
  cases hfind : b.symbol? v.name with
  | none => exact absurd (List.mem_map_of_mem hv') (name_not_mem hfind)
  | some u =>
      obtain ⟨hu, hname⟩ := symbol?_eq_some hfind
      rw [hb.symbols] at hu
      rw [List.inj_on_of_nodup_map hb.names hu hv hname]

/-- The name of a symbol is converted to the term for it. -/
theorem succeeds_atomTerm {v : Variable} (hv : v ∈ declared) (hname : IsSymbol v.name)
    (line : Nat) : Succeeds declared (atomTerm [] line v.name) fun t => t.bare = bareSymbol v := by
  unfold atomTerm
  rw [if_neg hname.notTrue, if_neg hname.notFalse]
  split
  · rename_i digits hdigits
    exact absurd hdigits (hname.notHex digits)
  · rename_i digits hdigits
    exact absurd hdigits (hname.notBinary digits)
  · simp only [List.lookup_nil]
    refine succeeds_get.bind fun b hb => ?_
    have hterm : ∃ t, b.symbolTerm? v.name = some t ∧ t.bare = bareSymbol v := by
      rw [symbolTerm?, hb.symbol? hv, Option.map_some]
      cases hrole : v.role with
      | input => exact ⟨_, rfl, by simp [bareSymbol, hrole, Term.bare]⟩
      | array i => exact ⟨_, rfl, by simp [bareSymbol, hrole, Term.bare]⟩
      | memory =>
          obtain ⟨l, hl⟩ := hb.cells v hv hrole
          exact ⟨.cell v l, by simp [hl], by simp [bareSymbol, hrole, Term.bare]⟩
    obtain ⟨t, ht, hbare⟩ := hterm
    rw [ht]
    exact succeeds_pure hbare

/-! ### Literals -/

/-- A literal is read back. -/
theorem indexedLiteral_node {n w : Nat} (hw : 0 < w ∧ w ≤ maxWidth) (hn : n < 2 ^ w) :
    indexedLiteral (Term.literal n w).node = .ok (.literal n w) := by
  have hwidth : (Text.nat32? w.repr).filter (fun n => 0 < n && n ≤ maxWidth) = some w := by
    rw [Text.nat32?_repr (Nat.lt_of_le_of_lt hw.2 (by decide))]
    exact Option.filter_eq_some_iff.mpr ⟨rfl, by simp [hw]⟩
  have hvalue : Text.after? "bv".toList ("bv" ++ n.repr).toList = some n.repr.toList := by
    simp [Text.after?]
  have hnonneg : ¬ (n : Int) < 0 := by omega
  have hsmall : ¬ (2 ^ w : Int) ≤ (n : Int) := by exact_mod_cast Nat.not_le.mpr hn
  simp only [Term.node, indexedLiteral, SExpr.items, SExpr.atomText, hvalue, hwidth,
    Text.signed?_repr, if_neg hnonneg, if_neg hsmall, Int.toNat_natCast]

/-! ### Applications -/

/-- Applies a head to arguments. -/
def applyHead (h : Head) (args : List Term) : Build Term :=
  match h with
  | .op o is => applyOp 1 o is args
  | .access k _ => applyOp 1 k.op [] args
  | .unknown name is => return applyUnknown name is args

/-- Touching an array succeeds. -/
theorem succeeds_touch (array : Variable) (index : Term) (kind : AccessKind) :
    Succeeds declared (touch array index kind) fun _ => True := by
  unfold touch
  refine succeeds_get.bind fun b hb => ?_
  simp only
  split
  · exact succeeds_pure trivial
  · refine (succeeds_set ?_).bind fun _ _ => succeeds_pure trivial
    exact ⟨hb.symbols, hb.names, hb.cells⟩

/-- The width of the first argument does not depend on locations. -/
theorem firstWidth_congr {as bs : List Term} (h : as.map Term.bare = bs.map Term.bare) :
    firstWidth as = firstWidth bs := by
  cases as with
  | nil =>
      cases bs with
      | nil => rfl
      | cons b bs => cases h
  | cons a as =>
      cases bs with
      | nil => cases h
      | cons b bs =>
          have hhead : a.bare = b.bare := List.head_eq_of_cons_eq h
          rw [firstWidth, firstWidth, ← Term.width_bare a, hhead, Term.width_bare]

/-- The sum of the widths does not depend on locations. -/
theorem foldl_width_congr {as bs : List Term} (h : as.map Term.bare = bs.map Term.bare) (n : Nat) :
    as.foldl (fun n t => n + t.width) n = bs.foldl (fun n t => n + t.width) n := by
  have hwidth (ts : List Term) (n : Nat) : ts.foldl (fun n t => n + t.width) n =
      (ts.map Term.bare).foldl (fun n t => n + t.width) n := by
    rw [List.foldl_map]
    simp only [Term.width_bare]
  rw [hwidth as, h, ← hwidth bs]

/-- The width of a result does not depend on locations. -/
theorem resultWidth_congr {as bs : List Term} (h : as.map Term.bare = bs.map Term.bare) (o : Op)
    (is : List Nat) : resultWidth o is as = resultWidth o is bs := by
  have htail : as.tail.map Term.bare = bs.tail.map Term.bare := by
    rw [List.map_tail, List.map_tail, h]
  unfold resultWidth
  rw [firstWidth_congr h, firstWidth_congr htail, foldl_width_congr h]

/-- An access is rebuilt, whichever location it gets this time. -/
theorem succeeds_applyAccess {kind : AccessKind} {a : Term} {as ts : List Term} {v : Variable}
    (hts : ts.map Term.bare = (a :: as).map Term.bare) (hlength : 2 ≤ ts.length)
    (harray : a.arrayOf? = some v) (line : Nat) :
    Succeeds declared (applyAccess line kind ts) fun t =>
      t.bare = .apply (.access kind default) ((a :: as).map Term.bare)
        (if kind = .read then v.width else 0) := by
  obtain ⟨a', index, rest, rfl⟩ : ∃ a' index rest, ts = a' :: index :: rest := by
    match ts, hlength with
    | a' :: index :: rest, _ => exact ⟨a', index, rest, rfl⟩
  have harray' : a'.arrayOf? = some v := by
    have hhead : a'.bare = a.bare := List.head_eq_of_cons_eq hts
    rw [← Term.arrayOf?_bare, hhead, Term.arrayOf?_bare, harray]
  simp only [applyAccess, harray']
  refine (succeeds_touch v index kind).bind fun l _ => succeeds_pure ?_
  rw [Term.bare, Term.bareAll_eq, hts]
  rfl

/-- A head is applied as before to arguments that are as before. -/
theorem succeeds_applyHead {h : Head} {args ts : List Term} {w : Nat}
    (hfits : (Term.apply h args w).Fits declared memory)
    (hts : ts.map Term.bare = args.map Term.bare) :
    Succeeds declared (applyHead h ts) fun t => t.bare = (Term.apply h args w).bare := by
  have hlength : ts.length = args.length := by simpa using congrArg List.length hts
  rw [Term.bare, Term.bareAll_eq]
  cases h with
  | op o is =>
      obtain ⟨hmemory, harity, hwidth⟩ := hfits
      rw [← hlength] at harity
      rw [← resultWidth_congr hts] at hwidth
      simp only [applyHead, applyOp, harity, Bool.not_true, Bool.false_eq_true, if_false]
      have hresult : (Term.apply (.op o is) ts w).bare =
          .apply (Term.bareHead (.op o is)) (args.map Term.bare) w := by
        rw [Term.bare, Term.bareAll_eq, hts]
      split
      · cases hmemory
      · cases hmemory
      · rw [hwidth]
        exact succeeds_pure hresult
  | access k l =>
      obtain ⟨harity, -, a, as, v, rfl, harray, rfl⟩ := hfits
      rw [← hlength] at harity
      have hleast : k.op.arity.least ≤ ts.length := by
        simp only [Op.Arity.allows, Bool.and_eq_true, decide_eq_true_eq] at harity
        exact harity.1
      have htwo : 2 ≤ ts.length := Nat.le_trans (by cases k <;> decide) hleast
      simp only [applyHead, applyOp, harity, Bool.not_true, Bool.false_eq_true, if_false]
      cases k with
      | read => exact succeeds_applyAccess hts htwo harray 1
      | write => exact succeeds_applyAccess hts htwo harray 1
  | unknown name is =>
      obtain rfl : w = firstWidth args := hfits
      refine succeeds_pure ?_
      rw [applyUnknown, Term.bare, Term.bareAll_eq, hts, firstWidth_congr hts]

/-! ### Terms -/

/-- A head that is recognised again in its expression. -/
def Recognised : Head → Prop
  | .op o is => is = [] ∨ indexedOp? o.name = some o ∧ ∀ i ∈ is, i < 2 ^ 32
  | .access _ _ => True
  | .unknown name is =>
    is = [] ∧ IsUnknown name ∨ is ≠ [] ∧ indexedOp? name = none ∧ ∀ i ∈ is, i < 2 ^ 32

/-- The head of a term that stands in a text is recognised again. -/
theorem recognised_of_spelled {nodes : List SExpr} {h : Head} {args : List Term} {w : Nat}
    (hspelled : (Term.apply h args w).Spelled nodes)
    (hindexed : ∀ e ∈ SExpr.partsAll nodes, e.isIndexless = false) : Recognised h := by
  cases h with
  | op o is => exact hspelled
  | access k l => trivial
  | unknown name is =>
      obtain ⟨-, hunknown | ⟨hop, hlt, hempty⟩⟩ := hspelled
      · exact .inl hunknown
      · refine .inr ⟨fun his => ?_, hop, hlt⟩
        obtain ⟨e, he, hindexless⟩ := hempty his
        exact absurd ((hindexed e he).symm.trans hindexless) (by decide)

/-- An application with a plain name converts its arguments and applies what the name stands for. -/
theorem convert_atomHead {name : String} (hmark : name ≠ "_") (hlet : name ≠ "let")
    (es : List SExpr) :
    convert [] (.list 1 (.atom 1 name :: es)) = (do
      let ts ← convertAll [] es
      match Op.ofName? name with
      | some o => applyOp 1 o [] ts
      | none => return applyUnknown name [] ts) := by
  rw [convert.eq_def]
  exact (if_neg hmark).trans (if_neg hlet)

/-- Indices are read back. -/
theorem indexList_repr (head : SExpr) {is : List Nat} (h : ∀ i ∈ is, i < 2 ^ 32) :
    indexList head (is.map fun i => .atom 1 i.repr) = .ok is := by
  induction is with
  | nil => rfl
  | cons i is ih =>
      obtain ⟨hi, his⟩ := List.forall_mem_cons.mp h
      rw [List.map_cons, indexList]
      simp only [SExpr.atomText, Text.nat32?_repr hi, ih his]
      rfl

/-- An application with an indexed name does the same with its indices. -/
theorem convert_indexedHead {name : String} {is : List Nat} (h : ∀ i ∈ is, i < 2 ^ 32)
    (es : List SExpr) :
    convert [] (.list 1 (.list 1 (.atom 1 "_" :: .atom 1 name ::
      is.map fun i => .atom 1 i.repr) :: es)) = (do
        let ts ← convertAll [] es
        match indexedOp? name with
        | some o => applyOp 1 o is ts
        | none => return applyUnknown name is ts) := by
  have hhead : indexedHead (.list 1 (.atom 1 "_" :: .atom 1 name ::
      is.map fun i => .atom 1 i.repr)) = .ok (name, is) := by
    simp only [indexedHead, SExpr.items, if_true, indexList_repr _ h, Except.map]
  rw [convert]
  exact congrArg (fun r => located 1 r >>= _) hhead

/-- The expression of an application is converted by applying its head to what its arguments are
converted to. -/
theorem convert_application {h : Head} (hh : Recognised h) (es : List SExpr) :
    convert [] (.list 1 (Term.headNode h :: es)) = convertAll [] es >>= applyHead h := by
  have hop (o : Op) : convert [] (.list 1 (.atom 1 o.name :: es)) =
      convertAll [] es >>= applyOp 1 o [] := by
    rw [convert_atomHead (by cases o <;> decide) (by cases o <;> decide), Op.ofName?_name]
  unfold Term.headNode
  cases h with
  | op o is =>
      cases is with
      | nil => exact hop o
      | cons i is =>
          obtain ⟨hindexed, hlt⟩ := hh.resolve_left nofun
          refine (convert_indexedHead hlt es).trans ?_
          rw [Head.name, hindexed]
          rfl
  | access k l => exact hop k.op
  | unknown name is =>
      rcases hh with ⟨rfl, hunknown⟩ | ⟨hne, hindexed, hlt⟩
      · refine (convert_atomHead hunknown.notMark hunknown.notLet es).trans ?_
        rw [hunknown.notOp]
        rfl
      · cases is with
        | nil => exact absurd rfl hne
        | cons i is =>
            refine (convert_indexedHead hlt es).trans ?_
            rw [Head.name, hindexed]
            rfl

/-- Arguments are rebuilt one by one. -/
theorem succeeds_convertAll {ts : List Term}
    (h : ∀ t ∈ ts, Succeeds declared (convert [] t.node) fun u => u.bare = t.bare) :
    Succeeds declared (convertAll [] (ts.map Term.node)) fun us =>
      us.map Term.bare = ts.map Term.bare := by
  induction ts with
  | nil =>
      rw [List.map_nil, convertAll]
      exact succeeds_pure rfl
  | cons t ts ih =>
      obtain ⟨ht, hts⟩ := List.forall_mem_cons.mp h
      rw [List.map_cons, convertAll]
      refine ht.bind fun u hu => (ih hts).bind fun us hus => succeeds_pure ?_
      rw [List.map_cons, List.map_cons, hu, hus]

/-- The expression of a term is converted to the term. The induction is over the term: its root is
spelled as the source spells it, and its arguments are converted before. -/
theorem succeeds_convert_node {nodes : List SExpr}
    (hindexed : ∀ e ∈ SExpr.partsAll nodes, e.isIndexless = false) {t : Term}
    (hfits : t.WellFormed declared memory) (htraced : t.Traced nodes)
    (hvalues : ∀ u ∈ t.parts, u.hasValue = true) :
    Succeeds declared (convert [] t.node) fun u => u.bare = t.bare := by
  induction t using Term.inductionOn with
  | input v =>
      obtain ⟨hv, hrole⟩ := hfits.fits
      rw [Term.node, convert]
      have hatom := succeeds_atomTerm hv (Term.traced_iff.mp htraced).1.2 1
      rwa [bareSymbol, hrole] at hatom
  | cell v l =>
      obtain ⟨hv, hrole, -⟩ := hfits.fits
      rw [Term.node, convert]
      have hatom := succeeds_atomTerm hv (Term.traced_iff.mp htraced).1.2 1
      rwa [bareSymbol, hrole] at hatom
  | array v =>
      obtain ⟨hv, i, hrole⟩ := hfits.fits
      rw [Term.node, convert]
      have hatom := succeeds_atomTerm hv (Term.traced_iff.mp htraced).1.2 1
      rwa [bareSymbol, hrole] at hatom
  | literal n w =>
      have hn : n < 2 ^ w := of_decide_eq_true (hvalues _ (Term.mem_parts_self _))
      have hliteral := indexedLiteral_node hfits.fits hn
      rw [Term.node] at hliteral
      rw [Term.node, convert.eq_def]
      simp only [if_true, hliteral]
      exact succeeds_pure rfl
  | truth v =>
      rw [Term.node, convert]
      cases v with
      | true => exact succeeds_pure rfl
      | false => exact succeeds_pure rfl
  | apply h args w ih =>
      obtain ⟨hspelled, htraced⟩ := Term.traced_iff.mp htraced
      obtain ⟨-, hvalues⟩ := Term.forall_parts_iff.mp hvalues
      have hrecognised : Recognised h := recognised_of_spelled hspelled hindexed
      rw [Term.node, Term.argNodes_eq, convert_application hrecognised]
      refine (succeeds_convertAll fun t ht => ?_).bind fun ts hts =>
        succeeds_applyHead hfits.fits hts
      exact ih t ht (hfits.arg ht) (htraced t ht) (hvalues t ht)

end Path.Builder

/-! ### Constraints -/

namespace Path

/-- Whether a source applies an indexed operator without indices. -/
def hasIndexless (src : String) : Bool :=
  match SExpr.readAll (bodyOf src) with
  | .ok nodes => (SExpr.partsAll nodes).any SExpr.isIndexless
  | .error _ => false

/-- The names in a traced term occur in the source. -/
theorem occurring_of_rootName? {nodes : List SExpr} {t : Term} (ht : t.Spelled nodes) {n : String}
    (hn : t.rootName? = some n) : Occurring nodes n := by
  cases t with
  | input v =>
      cases hn
      exact ht.1
  | cell v l =>
      cases hn
      exact ht.1
  | array v =>
      cases hn
      exact ht.1
  | literal n w => cases hn
  | truth b => cases hn
  | apply h args w =>
      cases h with
      | op o is => cases hn
      | access k l => cases hn
      | unknown name is =>
          cases hn
          exact ht.1

/-- Whatever occurs in a source without quotes is a word. -/
theorem word_of_occurring {src : String} (hquote : Token.quotes 1 .gap (bodyOf src) = false)
    {nodes : List SExpr} (hread : SExpr.readAll (bodyOf src) = .ok nodes) {text : String}
    (h : Occurring nodes text) : Token.Word text := by
  obtain ⟨l, hatom⟩ := h
  obtain ⟨e, he, hatom⟩ := SExpr.mem_partsAll.mp hatom
  exact SExpr.word_of_readAll hquote hread e he l text hatom

/-- **The canonical text of a constraint is read back as the constraint.** Let a path be read from a
source that has no quoted tokens and applies no indexed operator without indices, and let `e` be a
part of a constraint whose literals have values below two to their width. Then the text of `e` is
read as one expression, and wherever commands have declared the same symbols, converting it succeeds
with a term that is `e` in all but the locations, and has the same text. -/
theorem constraint_reads_back {src name : String} {p : Path} (hparse : parse src name = .ok p)
    (hquote : Token.quotes 1 .gap (bodyOf src) = false) (hindexless : hasIndexless src = false)
    {c : Constraint} (hc : c ∈ p.constraints) {e : Term} (he : e ∈ c.term.parts)
    (hvalues : ∀ u ∈ e.parts, u.hasValue = true) {others : List SExpr} {b : Builder}
    (hrun : (commands others).run .empty = .ok ((), b)) (hdeclared : b.declared = p.declared) :
    ∃ node t b', SExpr.readAll e.text.toList = .ok [node] ∧
      (convert [] node).run b = .ok (t, b') ∧ t.bare = e.bare ∧ t.text = e.text := by
  obtain ⟨nodes, hread, -, hterms⟩ := traced_of_parse hparse
  have hsubset := Term.parts_subset c.term e he
  have htraced : e.Traced nodes := fun u hu => hterms c hc u (hsubset hu)
  have hfits : e.WellFormed p.declared p.memory :=
    fun u hu => (wellFormed_of_parse hparse).terms c hc u (hsubset hu)
  have hwords : ∀ u ∈ e.parts, ∀ n, u.rootName? = some n → Token.Word n := fun u hu n hn =>
    word_of_occurring hquote hread (occurring_of_rootName? (htraced u hu) hn)
  have hindexed : ∀ u ∈ SExpr.partsAll nodes, u.isIndexless = false := by
    simpa [hasIndexless, hread] using hindexless
  have hb : b.Declares p.declared := by
    rw [← hdeclared]
    exact (Builder.ensures_commands Builder.wellFormed_empty others _ _ hrun).1.declares
  obtain ⟨t, b', hconvert, -, hbare⟩ :=
    Builder.succeeds_convert_node hindexed hfits htraced hvalues b hb
  refine ⟨e.node, t, b', ?_, hconvert, hbare, ?_⟩
  · rw [← Term.text_node]
    exact SExpr.readAll_text (Term.canonical_node hwords)
  · rw [← Term.text_bare t, hbare, Term.text_bare]

/-- A constraint with a definition, an array, an operator that is not known, and a literal in
another base. -/
theorem constraint_reads_back_let :
    let src := "(declare-const m (Array (_ BitVec 4) (_ BitVec 2)))
(assert (let ((i #xe)) (= ((_ f 3) (select m i)) ((_ extract 1 0) i))))"
    Token.quotes 1 .gap (bodyOf src) = false ∧ hasIndexless src = false ∧
    ∃ p c nodes b, parse src "" = .ok p ∧ p.constraints = [c] ∧
      c.text = "(= ((_ f 3) (select m (_ bv14 4))) ((_ extract 1 0) (_ bv14 4)))" ∧
      (commands nodes).run .empty = .ok ((), b) ∧ b.declared = p.declared ∧
      ∃ node t b', SExpr.readAll c.text.toList = .ok [node] ∧
        (convert [] node).run b = .ok (t, b') ∧ t.bare = c.term.bare ∧ t.text = c.text := by
  intro src
  have hquote : Token.quotes 1 .gap (bodyOf src) = false := by decide +kernel
  have hindexless : hasIndexless src = false := by decide +kernel
  have haccepted : (parse src "").toOption.any (fun p => p.constraints.map (·.text) =
      ["(= ((_ f 3) (select m (_ bv14 4))) ((_ extract 1 0) (_ bv14 4)))"] ∧
      ∀ c ∈ p.constraints, ∀ u ∈ c.term.parts, u.hasValue = true) = true := by decide +kernel
  obtain ⟨p, hparse, hp⟩ := exists_of_parse haccepted
  obtain ⟨htext, hvalues⟩ := of_decide_eq_true hp
  obtain ⟨c, hconstraints, htext⟩ := List.map_eq_singleton_iff.mp htext
  obtain ⟨nodes, b, -, hrun, hdeclared, -⟩ := exists_commands_of_parse hparse
  have hc : c ∈ p.constraints := by simp [hconstraints]
  exact ⟨hquote, hindexless, p, c, nodes, b, hparse, hconstraints, htext, hrun, hdeclared.symm,
    constraint_reads_back hparse hquote hindexless hc (Term.mem_parts_self _) (hvalues c hc) hrun
      hdeclared.symm⟩

end Path

end Pathwise
