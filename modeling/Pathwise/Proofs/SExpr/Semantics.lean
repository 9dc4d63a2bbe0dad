import Pathwise.Proofs.Path.Steps
import Pathwise.Proofs.Term.Denotation
import Pathwise.Proofs.Text.Numeral

/-!
# What expressions mean as they stand

The standard reading of expressions without arrays, straight from how they are written: no term is
built, and no definition is expanded.

* **Words** (`SExpr.IsLiteral`, `SExpr.NamesOp`): literals in their three notations, and operators
  with or without indices.
* **Definitions** (`SExpr.rebind`): a let reads its definitions where it stands itself, binds all of
  their names at once, and hides what these names stood for before, be it by an outer let or by a
  declaration.
* **Readings** (`SExpr.Reads`): names, definitions and applications are read alike for sorts and for
  meanings; a `Vocabulary` says what constants and operators are in either case.
  `SExpr.HasSort` and `SExpr.Means` are the two readings.

Expressions that have a sort have a meaning of that sort (`SExpr.HasSort.exists_means`).
-/

namespace Pathwise

namespace SExpr

/-! ### Literals and operators -/

/-- A decimal numeral. -/
inductive IsNumeral : SExpr → Nat → Prop
  | mk {line : Nat} {text : String} {n : Nat} (hn : Text.Spells 10 text.toList n) :
      IsNumeral (atom line text) n

/-- A literal, with its number and its width: hexadecimal digits of four bits each, binary digits,
or a decimal numeral that comes with a width. -/
inductive IsLiteral : SExpr → Nat → Nat → Prop
  | hexadecimal {line : Nat} {text : String} {digits : List Char} {n : Nat}
      (htext : text.toList = '#' :: 'x' :: digits) (hn : Text.Spells 16 digits n) :
      IsLiteral (atom line text) n (digits.length * 4)
  | binary {line : Nat} {text : String} {digits : List Char} {n : Nat}
      (htext : text.toList = '#' :: 'b' :: digits) (hn : Text.Spells 2 digits n) :
      IsLiteral (atom line text) n (digits.length * 1)
  | indexed {line l₁ l₂ : Nat} {name : String} {digits : List Char} {width : SExpr} {n w : Nat}
      (hname : name.toList = 'b' :: 'v' :: digits) (hn : Text.Spells 10 digits n)
      (hw : width.IsNumeral w) : IsLiteral (list line [atom l₁ "_", atom l₂ name, width]) n w

/-- The operator that the head of an application names, with its indices. -/
inductive NamesOp : SExpr → Op → List Nat → Prop
  | plain (line : Nat) (o : Op) : NamesOp (atom line o.name) o []
  | indexed {line l₁ l₂ : Nat} (o : Op) {numerals : List SExpr} {indices : List Nat}
      (hnumerals : List.Forall₂ IsNumeral numerals indices) (hne : indices ≠ []) :
      NamesOp (list line (atom l₁ "_" :: atom l₂ o.name :: numerals)) o indices

/-! ### Definitions -/

/-- A definition in a let. -/
structure Definition where
  line : Nat
  nameLine : Nat
  name : String
  value : SExpr

/-- A definition as it is written, `(name value)`. -/
def Definition.node (d : Definition) : SExpr :=
  list d.line [atom d.nameLine d.name, d.value]

section Names

variable {α β : Type}

/-- What names stand for after some of them are bound, all at once. A bound name no longer stands
for what it stood for outside. -/
def rebind (names : List String) (values : List α) (outer : String → Option α) :
    String → Option α :=
  fun name => ((names.zip values).lookup name).or (outer name)

/-- Looking up in changed values is changing what is looked up. -/
theorem lookup_zip_map (f : α → β) (names : List String) (values : List α) (name : String) :
    (names.zip (values.map f)).lookup name = ((names.zip values).lookup name).map f := by
  induction names generalizing values with
  | nil => rfl
  | cons n names ih =>
      cases values with
      | nil => rfl
      | cons a values =>
          simp only [List.map_cons, List.zip_cons_cons, List.lookup_cons, ih]
          split <;> rfl

end Names

/-! ### Readings -/

/-- What the constants of expressions are read as, and the results of operators on what their
arguments are read as. -/
structure Vocabulary (α : Type) where
  truth (value : Bool) : α
  literal (value width : Nat) : α
  Applies (o : Op) (indices : List Nat) (args : List α) (result : α) : Prop

/-- An expression is read as something, where names stand for what is given. -/
inductive Reads {α : Type} (V : Vocabulary α) : (String → Option α) → SExpr → α → Prop
  | truth (names : String → Option α) (line : Nat) (v : Bool) :
      Reads V names (atom line (toString v)) (V.truth v)
  | literal {names : String → Option α} {e : SExpr} {n w : Nat} (he : e.IsLiteral n w) :
      Reads V names e (V.literal n w)
  | symbol {names : String → Option α} (line : Nat) {name : String} {a : α}
      (hsymbol : Path.IsSymbol name) (ha : names name = some a) : Reads V names (atom line name) a
  | binding {names : String → Option α} (line headLine line' : Nat) {ds : List Definition}
      {body : SExpr} {values : List α} {a : α} (hdistinct : (ds.map (·.name)).Nodup)
      (hsymbols : ∀ d ∈ ds, Path.IsSymbol d.name) (hlen : ds.length = values.length)
      (hvalues : ∀ p ∈ ds.zip values, Reads V names p.1.value p.2)
      (hbody : Reads V (rebind (ds.map (·.name)) values names) body a) :
      Reads V names (list line [atom headLine "let", list line' (ds.map Definition.node), body]) a
  | application {names : String → Option α} (line : Nat) {head : SExpr} {args : List SExpr} {o : Op}
      {indices : List Nat} {values : List α} {a : α} (hhead : head.NamesOp o indices)
      (hlen : args.length = values.length) (hargs : ∀ p ∈ args.zip values, Reads V names p.1 p.2)
      (ha : V.Applies o indices values a) : Reads V names (list line (head :: args)) a

namespace Reads

variable {α : Type} {V : Vocabulary α} {names : String → Option α} {e f body : SExpr} {a b c : α}

/-- An operator applied to two expressions. -/
theorem application_two (line headLine : Nat) {o : Op} (he : Reads V names e a)
    (hf : Reads V names f b) (hc : V.Applies o [] [a, b] c) :
    Reads V names (list line [atom headLine o.name, e, f]) c := by
  refine .application line (.plain headLine o) rfl ?_ hc
  simp only [List.zip_cons_cons, List.zip_nil_right, List.forall_mem_cons]
  exact ⟨he, hf, List.forall_mem_nil _⟩

/-- Two definitions, made at the same time. -/
theorem binding_two (line : Nat) {m n : String} (hm : Path.IsSymbol m) (hn : Path.IsSymbol n)
    (hne : m ≠ n) (he : Reads V names e a) (hf : Reads V names f b)
    (hbody : Reads V (rebind [m, n] [a, b] names) body c) :
    Reads V names (list line [atom line "let", list line [list line [atom line m, e],
      list line [atom line n, f]], body]) c := by
  let ds : List Definition := [⟨line, line, m, e⟩, ⟨line, line, n, f⟩]
  have hdistinct : (ds.map (·.name)).Nodup := by simp [ds, hne]
  have hsymbols : ∀ d ∈ ds, Path.IsSymbol d.name :=
    List.forall_mem_cons.mpr ⟨hm, List.forall_mem_cons.mpr ⟨hn, List.forall_mem_nil _⟩⟩
  have hvalues : ∀ p ∈ ds.zip [a, b], Reads V names p.1.value p.2 :=
    List.forall_mem_cons.mpr ⟨he, List.forall_mem_cons.mpr ⟨hf, List.forall_mem_nil _⟩⟩
  exact .binding line line line hdistinct hsymbols rfl hvalues hbody

end Reads

/-- Expressions are read as sorts by the ranks of operators. -/
def sorts : Vocabulary TermSort where
  truth _ := .bool
  literal _ w := .bits w
  Applies := Op.HasRank

/-- Expressions are read as booleans and bit-vectors by what operators stand for. -/
def meanings : Vocabulary Meaning where
  truth v := .bool v
  literal n w := .bits w (BitVec.ofNat w n)
  Applies := Op.Denotes

/-- An expression is well-sorted, where names have the given sorts. -/
abbrev HasSort (sortOf : String → Option TermSort) (e : SExpr) (s : TermSort) : Prop :=
  e.Reads sorts sortOf s

/-- An expression means something, where names have the given meanings. -/
abbrev Means (meaningOf : String → Option Meaning) (e : SExpr) (m : Meaning) : Prop :=
  e.Reads meanings meaningOf m

/-- The sorts of declared symbols, arrays aside. -/
def declaredSort (declared : List Variable) (name : String) : Option TermSort :=
  (declared.find? (·.name == name)).bind fun v =>
    match v.role with
    | .array _ => none
    | _ => some (.bits v.width)

/-- What declared symbols mean under an assignment, arrays aside: their number, modulo the width. -/
def declaredMeaning (declared : List Variable) (env : Assignment) (name : String) :
    Option Meaning :=
  (declared.find? (·.name == name)).bind fun v =>
    match v.role with
    | .array _ => none
    | _ => (env name).map fun n => .bits v.width (BitVec.ofNat v.width n)

/-! ### Well-sorted expressions have meanings -/

variable {sortOf : String → Option TermSort} {meaningOf : String → Option Meaning} {e : SExpr}

/-- Where all words have values, declared symbols have meanings of their sorts. -/
theorem exists_declaredMeaning {declared : List Variable} {env : Assignment}
    (henv : ∀ v ∈ declared, (∀ i, v.role ≠ .array i) → (env v.name).isSome) :
    ∀ name s, declaredSort declared name = some s →
      ∃ m, declaredMeaning declared env name = some m ∧ m.sort = s := by
  intro name s hs
  obtain ⟨v, hv, hsort⟩ := Option.bind_eq_some_iff.mp hs
  obtain rfl : v.name = name := by simpa using List.find?_some hv
  have hvalue := henv v (List.mem_of_find?_eq_some hv)
  simp only [declaredMeaning, hv, Option.bind_some]
  split at hsort
  · cases hsort
  · rename_i hrole
    cases hsort
    obtain ⟨n, hn⟩ := Option.isSome_iff_exists.mp (hvalue hrole)
    exact ⟨_, by rw [hn]; rfl, rfl⟩

/-- Names with sorts have meanings of these sorts, also after some are bound. -/
theorem rebind_meanings (names : List String) {ms : List Meaning}
    (h : ∀ name s, sortOf name = some s → ∃ m, meaningOf name = some m ∧ m.sort = s) :
    ∀ name s, rebind names (ms.map Meaning.sort) sortOf name = some s →
      ∃ m, rebind names ms meaningOf name = some m ∧ m.sort = s := by
  intro name s hs
  simp only [rebind, lookup_zip_map] at hs ⊢
  cases hbound : (names.zip ms).lookup name with
  | none =>
      simp only [hbound, Option.map_none, Option.none_or] at hs ⊢
      exact h name s hs
  | some m =>
      simp only [hbound, Option.map_some, Option.some_or, Option.some.injEq] at hs ⊢
      exact ⟨m, rfl, hs⟩

/-- A well-sorted expression has a meaning of its sort. -/
theorem HasSort.exists_means {s : TermSort} (he : e.HasSort sortOf s)
    (h : ∀ name s, sortOf name = some s → ∃ m, meaningOf name = some m ∧ m.sort = s) :
    ∃ m, e.Means meaningOf m ∧ m.sort = s := by
  induction he generalizing meaningOf with
  | truth names line v => exact ⟨_, .truth _ line v, rfl⟩
  | literal he => exact ⟨_, .literal he, rfl⟩
  | symbol line hsymbol hs =>
      obtain ⟨m, hm, rfl⟩ := h _ _ hs
      exact ⟨m, .symbol line hsymbol hm, rfl⟩
  | @binding _ line headLine line' ds body ss s hdistinct hsymbols hlen _ _ ih ihbody =>
      obtain ⟨ms, hlength, hms, rfl⟩ :=
        Meaning.exists_list (R := fun d m => d.value.Means meaningOf m) hlen fun p hp => ih p hp h
      obtain ⟨m, hm, hsort⟩ := ihbody (rebind_meanings (ds.map (·.name)) h)
      exact ⟨m, .binding line headLine line' hdistinct hsymbols hlength hms hm, hsort⟩
  | @application _ line head args o indices ss s hhead hlen _ hs ih =>
      obtain ⟨ms, hlength, hms, rfl⟩ :=
        Meaning.exists_list (R := fun e m => e.Means meaningOf m) hlen fun p hp => ih p hp h
      obtain ⟨m, hm, hsort⟩ := Op.HasRank.denotes hs rfl
      exact ⟨m, .application line hhead hlength hms hm, hsort⟩

end SExpr

end Pathwise
