import Pathwise.Proofs.Path.WellFormed
import Pathwise.Proofs.SExpr.Reading
import Pathwise.Proofs.Text.Delimited
import Pathwise.Proofs.Text.Numeral

/-!
# Where the names of a path come from

Building a path makes up no names: a symbol in a term is an atom of the source where it is used, a
declared symbol is one where it is declared, and so is an unknown operator where it is applied. It
makes up no numbers either: a literal is written in the source, in one of three notations.

* **Terms** (`Term.Spelled`, `Term.Traced`): what is known of each part of a term by the way in
  which the source spells it. Operators with indices were applied as such.
* **Steps** (`Builder.Traces`): a step of building adds nothing that cannot be traced.
* **Paths** (`Path.traced_of_parse`): all symbols and all constraints of a path can be traced.
-/

namespace Pathwise

namespace SExpr

/-- Whether an expression applies an indexed operator without indices. -/
def isIndexless : SExpr → Bool
  | .list _ (.list _ [.atom _ mark, .atom _ _] :: _) => mark = "_"
  | _ => false

/-- How a literal is written: the integer that its digits spell, and its width. Digits of base 16
and 2 give the width too, to which a sign adds one digit. -/
inductive Writes : SExpr → Int → Nat → Prop
  | hexadecimal {l : Nat} {text : String} {digits : List Char} {i : Int}
      (htext : text.toList = '#' :: 'x' :: digits) (hi : Text.SpellsInt 16 digits i)
      (hmax : digits.length * 4 ≤ maxWidth) : Writes (atom l text) i (digits.length * 4)
  | binary {l : Nat} {text : String} {digits : List Char} {i : Int}
      (htext : text.toList = '#' :: 'b' :: digits) (hi : Text.SpellsInt 2 digits i)
      (hmax : digits.length * 1 ≤ maxWidth) : Writes (atom l text) i (digits.length * 1)
  | indexed {l l₁ l₂ : Nat} {name : String} {width : SExpr} {digits : List Char} {i : Int} {w : Nat}
      (hname : name.toList = 'b' :: 'v' :: digits) (hi : Text.SpellsInt 10 digits i)
      (hwidth : Text.Spells 10 width.atomText.toList w) (hmax : w ≤ maxWidth) (hnonneg : 0 ≤ i)
      (hlt : i < 2 ^ w) : Writes (list l [atom l₁ "_", atom l₂ name, width]) i w

variable {nodes es : List SExpr} {e : SExpr} {l : Nat}

/-- The items of a list in a source are in the source. -/
theorem mem_partsAll_item (h : list l es ∈ partsAll nodes) (he : e ∈ es) : e ∈ partsAll nodes := by
  obtain ⟨root, hroot, hlist⟩ := mem_partsAll.mp h
  refine mem_partsAll.mpr ⟨root, hroot, parts_subset root _ hlist ?_⟩
  exact mem_parts_item he (mem_parts_self e)

/-- Expressions are parts of themselves. -/
theorem mem_partsAll_of_mem (h : e ∈ nodes) : e ∈ partsAll nodes :=
  mem_partsAll.mpr ⟨e, h, mem_parts_self e⟩

end SExpr

namespace Path

/-- The number of a literal, for the integer that it is written for. -/
def wrapped (i : Int) : Nat :=
  (i % 2 ^ maxWidth).toNat

/-- A number that fits a width is not changed. -/
theorem wrapped_of_nonneg {i : Int} {w : Nat} (hnonneg : 0 ≤ i) (hlt : i < 2 ^ w)
    (hmax : w ≤ maxWidth) : wrapped i = i.toNat := by
  have hpow : (2 : Int) ^ w ≤ 2 ^ maxWidth := pow_le_pow_right₀ (by decide) hmax
  rw [wrapped, Int.emod_eq_of_lt hnonneg (by omega)]

/-- The source has an atom with a given text. -/
def Occurring (nodes : List SExpr) (text : String) : Prop :=
  ∃ l, .atom l text ∈ SExpr.partsAll nodes

/-- A name that is applied as it stands to some arguments and stands for no known operator. -/
structure IsUnknown (name : String) : Prop where
  notMark : name ≠ "_"
  notLet : name ≠ "let"
  notOp : Op.ofName? name = none

end Path

namespace Term

open Pathwise.Path

/-- How the root of a term is spelled in a source. -/
def Spelled (nodes : List SExpr) : Term → Prop
  | input v => Occurring nodes v.name ∧ IsSymbol v.name
  | cell v _ => Occurring nodes v.name ∧ IsSymbol v.name
  | array v => Occurring nodes v.name ∧ IsSymbol v.name
  | literal n w => ∃ e ∈ SExpr.partsAll nodes, ∃ i, e.Writes i w ∧ n = wrapped i
  | truth _ => True
  | apply (.op o is) _ _ => is = [] ∨ indexedOp? o.name = some o ∧ ∀ i ∈ is, i < 2 ^ 32
  | apply (.access _ _) _ _ => True
  | apply (.unknown name is) _ _ =>
    Occurring nodes name ∧
      (is = [] ∧ IsUnknown name ∨
        indexedOp? name = none ∧ (∀ i ∈ is, i < 2 ^ 32) ∧
          (is = [] → ∃ e ∈ SExpr.partsAll nodes, e.isIndexless = true))

/-- All parts of a term are spelled in a source. -/
def Traced (nodes : List SExpr) (t : Term) : Prop :=
  ∀ u ∈ t.parts, u.Spelled nodes

/-- A term comes from a source if its root is spelled there and its arguments come from it. -/
theorem traced_iff {nodes : List SExpr} {t : Term} :
    t.Traced nodes ↔ t.Spelled nodes ∧ ∀ u ∈ t.args, u.Traced nodes :=
  forall_parts_iff

end Term

namespace Path

namespace Builder

/-- All symbols and constraints of a builder come from a source. -/
structure Traced (nodes : List SExpr) (b : Builder) : Prop where
  names : ∀ v ∈ b.declared, Occurring nodes v.name
  terms : ∀ c ∈ b.constraints, c.term.Traced nodes

/-- A step that keeps builders traced, with results that have a given property. -/
def Traces {α : Type} (nodes : List SExpr) (m : Build α) (Q : α → Prop) : Prop :=
  ∀ b a b', b.Traced nodes → m.run b = .ok (a, b') → b'.Traced nodes ∧ Q a

variable {nodes : List SExpr} {b b' : Builder}

/-! ### Atoms -/

/-- A literal that is written in a source comes from it. -/
theorem traced_literal {e : SExpr} {i : Int} {w : Nat} (he : e ∈ SExpr.partsAll nodes)
    (hi : e.Writes i w) : (Term.literal (wrapped i) w).Traced nodes :=
  Term.traced_iff.mpr ⟨⟨e, he, i, hi, rfl⟩, nofun⟩

/-- A literal in base two or sixteen is what its digits spell, with the width of the digits. -/
theorem radixLiteral?_eq_some {base bits : Nat} (hbase : base ≤ 16) {digits : List Char} {t : Term}
    (h : radixLiteral? base bits digits = some t) :
    ∃ i, t = .literal (wrapped i) (digits.length * bits) ∧ Text.SpellsInt base digits i ∧
      digits.length * bits ≤ maxWidth := by
  simp only [radixLiteral?] at h
  split at h
  · cases h
  · rename_i hmax
    obtain ⟨i, hi, rfl⟩ := Option.map_eq_some_iff.mp h
    exact ⟨i, rfl, (Text.signed?_eq_some_iff hbase).mp hi, by omega⟩

/-- A literal with a width is what its expression writes. -/
theorem indexedLiteral_eq_ok {l l₁ : Nat} {rest : List SExpr} {t : Term}
    (h : indexedLiteral (.list l (.atom l₁ "_" :: rest)) = .ok t) :
    ∃ i w, t = .literal (wrapped i) w ∧ (SExpr.list l (.atom l₁ "_" :: rest)).Writes i w := by
  simp only [indexedLiteral, SExpr.items] at h
  split at h
  · rename_i l₂ name width hitems
    obtain ⟨-, rfl⟩ := List.cons.inj hitems
    split at h
    · cases h
    rename_i digits hdigits
    split at h
    · cases h
    rename_i w hw
    split at h
    · cases h
    rename_i i hi
    split at h
    · cases h
    rename_i hnonneg
    split at h
    · cases h
    rename_i hlt
    cases h
    obtain ⟨hw, hbounds⟩ := Option.filter_eq_some_iff.mp hw
    have hmax : w ≤ maxWidth := by simp_all
    have hspells : Text.Spells 10 width.atomText.toList w :=
      (Text.digits?_eq_some_iff (by decide)).mp (Option.filter_eq_some_iff.mp hw).1
    refine ⟨i, w, by rw [wrapped_of_nonneg (by omega) (by omega) hmax], ?_⟩
    exact .indexed (Text.eq_append_of_after? hdigits) ((Text.signed?_eq_some_iff (by decide)).mp hi)
      hspells hmax (by omega) (by omega)
  · cases h

/-- The term of a declared symbol has its name. -/
theorem traced_of_symbolTerm? {b : Builder} {name : String} {t : Term}
    (h : b.symbolTerm? name = some t) (hname : Occurring nodes name) (hsymbol : IsSymbol name) :
    t.Traced nodes := by
  obtain ⟨v, hv, rfl⟩ := Option.map_eq_some_iff.mp h
  obtain ⟨-, rfl⟩ := symbol?_eq_some hv
  split
  · exact Term.traced_iff.mpr ⟨⟨hname, hsymbol⟩, nofun⟩
  · exact Term.traced_iff.mpr ⟨⟨hname, hsymbol⟩, nofun⟩
  · split
    · exact Term.traced_iff.mpr ⟨⟨hname, hsymbol⟩, nofun⟩
    · exact Term.traced_iff.mpr ⟨⟨hname, hsymbol⟩, nofun⟩

/-- The term of an atom in a source comes from it where the terms in scope do. -/
theorem traced_of_atomTerm {scope : Scope} (hscope : ∀ d ∈ scope, d.2.Traced nodes) {line : Nat}
    {text : String} (htext : .atom line text ∈ SExpr.partsAll nodes) {t : Term}
    (h : AtomTerm scope b text t) : t.Traced nodes := by
  cases h with
  | truth v => exact Term.traced_iff.mpr ⟨trivial, nofun⟩
  | hexadecimal hdigits ht =>
      obtain ⟨i, rfl, hi, hmax⟩ := radixLiteral?_eq_some (by decide) ht
      exact traced_literal htext (.hexadecimal hdigits hi hmax)
  | binary hdigits ht =>
      obtain ⟨i, rfl, hi, hmax⟩ := radixLiteral?_eq_some (by decide) ht
      exact traced_literal htext (.binary hdigits hi hmax)
  | definition hd => exact hscope _ hd
  | symbol hsymbol ht => exact traced_of_symbolTerm? ht ⟨line, htext⟩ hsymbol

/-! ### Applications -/

/-- An index is a number of 32 bits. -/
theorem lt_of_nat32? {s : String} {n : Nat} (h : Text.nat32? s = some n) : n < 2 ^ 32 := by
  simpa using (Option.filter_eq_some_iff.mp h).2

/-- Each index is read, and is a number of 32 bits. -/
theorem indexList_spec {head : SExpr} {es : List SExpr} {is : List Nat}
    (h : indexList head es = .ok is) : is.length = es.length ∧ ∀ i ∈ is, i < 2 ^ 32 := by
  induction es generalizing is with
  | nil =>
      cases h
      exact ⟨rfl, nofun⟩
  | cons e es ih =>
      rw [indexList] at h
      cases hn : Text.nat32? e.atomText with
      | none => simp [hn] at h
      | some n =>
          cases hrest : indexList head es with
          | error c =>
              simp only [hn, hrest] at h
              cases h
          | ok rest =>
              obtain ⟨hlength, hlt⟩ := ih hrest
              simp only [hn, hrest] at h
              cases h
              exact ⟨by simp [hlength], List.forall_mem_cons.mpr ⟨lt_of_nat32? hn, hlt⟩⟩

/-- The head of an indexed application. -/
theorem indexedHead_spec {l : Nat} {items : List SExpr} {name : String} {is : List Nat}
    (h : indexedHead (.list l items) = .ok (name, is)) :
    (∃ l₁ l₂ es, items = .atom l₁ "_" :: .atom l₂ name :: es ∧ is.length = es.length) ∧
      ∀ i ∈ is, i < 2 ^ 32 := by
  simp only [indexedHead, SExpr.items] at h
  split at h
  · rename_i l₁ mark l₂ name' es
    split at h
    · rename_i hmark
      cases hlist : indexList (.list l (.atom l₁ mark :: .atom l₂ name' :: es)) es with
      | error c =>
          rw [hlist] at h
          cases h
      | ok is' =>
          rw [hlist] at h
          cases h
          obtain ⟨hlength, hlt⟩ := indexList_spec hlist
          exact ⟨⟨l₁, l₂, es, by rw [hmark], hlength⟩, hlt⟩
    · cases h
  · cases h

/-- An indexed operator has the name it is found by. -/
theorem name_of_indexedOp? {name : String} {o : Op} (h : indexedOp? name = some o) :
    o.name = name := by
  simpa using List.find?_some (Option.filter_eq_some_iff.mp h).1

/-- The source spells what is applied. -/
theorem traced_of_applies {line : Nat} {head : SExpr} {rest : List SExpr} {name : String}
    {indices : List Nat} {o? : Option Op} {args : List Term} {t : Term}
    (hnode : .list line (head :: rest) ∈ SExpr.partsAll nodes) (hhead : Heads head name indices o?)
    (h : Applies o? name indices args b t b') (hargs : ∀ u ∈ args, u.Traced nodes) :
    t.Traced nodes := by
  have hitem : head ∈ SExpr.partsAll nodes := SExpr.mem_partsAll_item hnode List.mem_cons_self
  cases hhead with
  | @plain headLine _ hmark hlet =>
      cases h with
      | unknown ho =>
          exact Term.traced_iff.mpr ⟨⟨⟨headLine, hitem⟩, .inl ⟨rfl, hmark, hlet, ho⟩⟩, hargs⟩
      | access _ _ _ _ => exact Term.traced_iff.mpr ⟨trivial, hargs⟩
      | op _ _ _ _ => exact Term.traced_iff.mpr ⟨.inl rfl, hargs⟩
  | indexed hindexed =>
      obtain ⟨⟨l₁, l₂, es, rfl, hlength⟩, hlt⟩ := indexedHead_spec hindexed
      cases h with
      | unknown ho =>
          have hname : Occurring nodes name := ⟨l₂, SExpr.mem_partsAll_item hitem (by simp)⟩
          refine Term.traced_iff.mpr ⟨⟨hname, .inr ⟨ho, hlt, ?_⟩⟩, hargs⟩
          rintro rfl
          obtain rfl : es = [] := List.length_eq_zero_iff.mp hlength.symm
          exact ⟨_, hnode, by simp [SExpr.isIndexless]⟩
      | access _ _ _ _ => exact Term.traced_iff.mpr ⟨trivial, hargs⟩
      | op ho _ _ _ =>
          refine Term.traced_iff.mpr ⟨.inr ⟨?_, hlt⟩, hargs⟩
          rw [name_of_indexedOp? ho]
          exact ho

/-! ### Expressions -/

/-- Whatever is converted can be traced to where it stands in the source. -/
theorem traced_of_convert {scope : Scope} {e : SExpr} {t : Term}
    (h : (convert scope e).run b = .ok (t, b')) (he : e ∈ SExpr.partsAll nodes)
    (hscope : ∀ d ∈ scope, d.2.Traced nodes) : t.Traced nodes := by
  refine convert_induction
    (P := fun scope _ e t _ => e ∈ SExpr.partsAll nodes → (∀ d ∈ scope, d.2.Traced nodes) →
      t.Traced nodes)
    (D := fun scope _ es ds _ => (∀ e ∈ es, e ∈ SExpr.partsAll nodes) →
      (∀ d ∈ scope, d.2.Traced nodes) → ∀ d ∈ ds, d.2.Traced nodes)
    (A := fun scope _ es ts _ => (∀ e ∈ es, e ∈ SExpr.partsAll nodes) →
      (∀ d ∈ scope, d.2.Traced nodes) → ∀ t ∈ ts, t.Traced nodes)
    ?atom ?literal ?binding ?application ?noDefinition ?definition ?noArgument ?argument h he hscope
  case atom =>
    intro scope b line text t ht he hscope
    exact traced_of_atomTerm hscope he ht
  case literal =>
    intro scope b line headLine rest t ht he hscope
    obtain ⟨i, w, rfl, hi⟩ := indexedLiteral_eq_ok ht
    exact traced_literal he hi
  case binding =>
    intro scope b c b' line headLine line' definitions body inner t _ ihdef ihbody he hscope
    have hlist : .list line' definitions ∈ SExpr.partsAll nodes :=
      SExpr.mem_partsAll_item he (by simp)
    have hinner := ihdef (fun u hu => SExpr.mem_partsAll_item hlist hu) hscope
    refine ihbody (SExpr.mem_partsAll_item he (by simp)) fun d hd => ?_
    exact (List.mem_append.mp hd).elim (hinner d) (hscope d)
  case application =>
    intro scope b c b' line head rest name indices o? args t _ hhead ihargs happlies he hscope
    have hrest (u : SExpr) (hu : u ∈ rest) : u ∈ SExpr.partsAll nodes :=
      SExpr.mem_partsAll_item he (List.mem_cons_of_mem _ hu)
    exact traced_of_applies he hhead happlies (ihargs hrest hscope)
  case noDefinition =>
    intro scope b hes hscope
    simp
  case definition =>
    intro scope b c b' line line' name e definitions t later _ ih ihrest hes hscope
    obtain ⟨hlist, hes⟩ := List.forall_mem_cons.mp hes
    intro d hd
    rcases List.mem_append.mp hd with hd | hd
    · exact ihrest hes hscope d hd
    · rw [List.mem_singleton.mp hd]
      exact ih (SExpr.mem_partsAll_item hlist (by simp)) hscope
  case noArgument =>
    intro scope b hes hscope
    simp
  case argument =>
    intro scope b c b' e es t ts _ ih ihrest hes hscope
    obtain ⟨he, hes⟩ := List.forall_mem_cons.mp hes
    exact List.forall_mem_cons.mpr ⟨ih he hscope, ihrest hes hscope⟩

/-- Converting an expression of a source gives a term that comes from it. -/
theorem traces_convert {scope : Scope} {e : SExpr} (he : e ∈ SExpr.partsAll nodes)
    (hscope : ∀ d ∈ scope, d.2.Traced nodes) :
    Traces nodes (convert scope e) (·.Traced nodes) := by
  intro b t b' hb hrun
  obtain ⟨hdeclared, -, hconstraints⟩ := kept_of_convert hrun
  refine ⟨⟨?_, ?_⟩, traced_of_convert hrun he hscope⟩
  · rw [hdeclared]
    exact hb.names
  · rw [hconstraints]
    exact hb.terms

/-! ### Commands -/

/-- Declaring a name that occurs in a source keeps a builder traced. -/
theorem Traced.declare {b : Builder} (hb : b.Traced nodes) {v : Variable} {memory : List Location}
    {cells : List (String × Location)} (hv : Occurring nodes v.name) :
    Traced nodes { b with declared := b.declared ++ [v], memory := memory, cells := cells } := by
  refine ⟨fun u hu => ?_, hb.terms⟩
  rcases List.mem_append.mp hu with hu | hu
  · exact hb.names u hu
  · rw [List.mem_singleton.mp hu]
    exact hv

/-- Asserting a term that comes from a source keeps a builder traced. -/
theorem Traced.assert (hb : b.Traced nodes) {t : Term} (ht : t.Traced nodes) :
    Traced nodes { b with
      constraints := b.constraints ++ numberedFrom b.constraints.length (conjuncts t) } := by
  refine ⟨hb.names, fun c hc => ?_⟩
  rcases List.mem_append.mp hc with hc | hc
  · exact hb.terms c hc
  · have hpart := mem_parts_of_mem_conjuncts t _ (term_mem_of_mem_numberedFrom hc)
    exact fun u hu => ht u (Term.parts_subset t _ hpart hu)

/-- A command of a source keeps builders traced. -/
theorem traces_command {node : SExpr} (hnode : node ∈ SExpr.partsAll nodes) :
    Traces nodes (command node) fun _ => True := by
  intro b _ b' hb hrun
  refine ⟨?_, trivial⟩
  rcases command_cases hrun with ⟨-, line, name, sort, hname, hdeclare⟩ |
    ⟨-, line, first, e, t, c, rfl, hconvert, hassert⟩ | ⟨-, rfl⟩
  · have hitem : name ∈ SExpr.partsAll nodes := by
      cases node with
      | atom l text => simp [SExpr.items] at hname
      | list l es => exact SExpr.mem_partsAll_item hnode hname
    obtain ⟨l, v, rfl, -, -, ⟨-, rfl⟩ | ⟨m, -, -, -, rfl⟩⟩ := declare_cases hdeclare
    · exact hb.declare ⟨l, hitem⟩
    · exact hb.declare ⟨l, hitem⟩
  · have he : e ∈ SExpr.partsAll nodes := SExpr.mem_partsAll_item hnode (by simp)
    obtain ⟨hc, ht⟩ := traces_convert he (by simp) b t c hb hconvert
    obtain ⟨-, rfl⟩ := assert_cases hassert
    exact hc.assert ht
  · exact hb

/-- Commands of a source, one after the other, keep builders traced. -/
theorem traces_commands {es : List SExpr} (hes : ∀ e ∈ es, e ∈ SExpr.partsAll nodes) :
    Traces nodes (commands es) fun _ => True := by
  intro b _ b' hb hrun
  refine ⟨commands_induction ?_ hb hrun, trivial⟩
  intro e he c d hc hcommand
  exact (traces_command (hes e he) c () d hc hcommand).1

end Builder

/-! ### Paths -/

/-- The part of a source that is read as expressions. -/
def bodyOf (src : String) : List Char :=
  bodyText (splitSource src.toList).2

/-- A source that is accepted is read as expressions, and these are carried out as commands. -/
theorem exists_commands_of_parse {src name : String} {p : Path} (h : parse src name = .ok p) :
    ∃ nodes b, SExpr.readAll (bodyOf src) = .ok nodes ∧
      (commands nodes).run .empty = .ok ((), b) ∧ p.declared = b.declared ∧
      p.memory = b.memory ∧ p.constraints = b.constraints := by
  unfold parse build at h
  simp only at h
  cases hread : SExpr.readAll (bodyOf src) with
  | error e =>
      rw [bodyOf] at hread
      rw [hread] at h
      cases h
  | ok nodes =>
      rw [bodyOf] at hread
      rw [hread] at h
      simp only at h
      cases hrun : (commands nodes).run .empty with
      | error e =>
          rw [hrun] at h
          cases h
      | ok r =>
          rw [hrun] at h
          cases h
          exact ⟨nodes, r.2, rfl, hrun, rfl, rfl, rfl⟩

/-- **The names of a path come from its source.** -/
theorem traced_of_parse {src name : String} {p : Path} (h : parse src name = .ok p) :
    ∃ nodes, SExpr.readAll (bodyOf src) = .ok nodes ∧
      (∀ v ∈ p.declared, Occurring nodes v.name) ∧ ∀ c ∈ p.constraints, c.term.Traced nodes := by
  obtain ⟨nodes, b, hread, hrun, hdeclared, -, hconstraints⟩ := exists_commands_of_parse h
  have hempty : Builder.empty.Traced nodes := ⟨nofun, nofun⟩
  obtain ⟨hb, -⟩ :=
    Builder.traces_commands (fun e he => SExpr.mem_partsAll_of_mem he) _ _ _ hempty hrun
  rw [hdeclared, hconstraints]
  exact ⟨nodes, hread, hb.names, hb.terms⟩

end Path

end Pathwise
