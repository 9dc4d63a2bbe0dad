import Pathwise.Path.Parse

/-!
# What the steps of building can do

A run of building that succeeds did one of a few things at each of its steps. This file says which,
once for each step, and what is known of a path is derived from that: refusals do not come up again,
and the state is not unfolded again.

* **Atoms** (`Builder.AtomTerm`): a constant, a literal, a definition or a symbol.
* **Applications** (`Builder.Heads`, `Builder.Applies`): what is applied, and what comes out. Only
  accesses change the builder, and only by what they touch (`Builder.touch_cases`).
* **Expressions** (`Builder.convert_induction`): induction over the conversions that succeed. They
  add locations and nothing else (`Builder.kept_of_convert`).
* **Commands** (`Builder.declare_cases`, `Builder.assert_cases`, `Builder.command_cases`).
-/

namespace Pathwise.Path

/-- An atom that denotes a symbol: it is no constant, and does not begin like a literal. -/
structure IsSymbol (name : String) : Prop where
  notTrue : name ≠ "true"
  notFalse : name ≠ "false"
  notHex : ∀ digits, name.toList ≠ '#' :: 'x' :: digits
  notBinary : ∀ digits, name.toList ≠ '#' :: 'b' :: digits

namespace Builder

variable {α β : Type} {b b' : Builder}

/-- Two steps succeed one after the other if both do. -/
theorem exists_of_run_bind {m : Build α} {f : α → Build β} {r : β} {d : Builder}
    (h : (m >>= f).run b = .ok (r, d)) :
    ∃ a c, m.run b = .ok (a, c) ∧ (f a).run c = .ok (r, d) := by
  rw [StateT.run_bind] at h
  cases hfirst : m.run b with
  | error e =>
      rw [hfirst] at h
      cases h
  | ok first =>
      rw [hfirst] at h
      exact ⟨first.1, first.2, rfl, h⟩

/-- A result that is given a line changes nothing in the builder. -/
theorem located_cases {line : Nat} {r : Except Cause α} {a : α}
    (h : (located line r).run b = .ok (a, b')) : r = .ok a ∧ b' = b := by
  cases r with
  | error c => cases h
  | ok a' =>
      cases h
      exact ⟨rfl, rfl⟩

/-! ### Atoms -/

/-- What is looked up is listed. -/
theorem mem_of_lookup {κ : Type} [BEq κ] [LawfulBEq κ] {entries : List (κ × α)} {k : κ} {a : α}
    (h : entries.lookup k = some a) : (k, a) ∈ entries := by
  obtain ⟨before, after, rfl, -⟩ := List.lookup_eq_some_iff.mp h
  simp

/-- What an atom can stand for. -/
inductive AtomTerm (scope : Scope) (b : Builder) (text : String) : Term → Prop
  | truth (v : Bool) : AtomTerm scope b text (.truth v)
  | hexadecimal {digits : List Char} {t : Term} (htext : text.toList = '#' :: 'x' :: digits)
      (ht : radixLiteral? 16 4 digits = some t) : AtomTerm scope b text t
  | binary {digits : List Char} {t : Term} (htext : text.toList = '#' :: 'b' :: digits)
      (ht : radixLiteral? 2 1 digits = some t) : AtomTerm scope b text t
  | definition {t : Term} (ht : (text, t) ∈ scope) : AtomTerm scope b text t
  | symbol {t : Term} (hsymbol : IsSymbol text) (ht : b.symbolTerm? text = some t) :
      AtomTerm scope b text t

/-- An atom becomes one of the terms it can stand for, and the builder stays. -/
theorem atomTerm_cases {scope : Scope} {line : Nat} {text : String} {t : Term}
    (h : (atomTerm scope line text).run b = .ok (t, b')) : AtomTerm scope b text t ∧ b' = b := by
  unfold atomTerm at h
  split at h
  · cases h
    exact ⟨.truth true, rfl⟩
  rename_i htrue
  split at h
  · cases h
    exact ⟨.truth false, rfl⟩
  rename_i hfalse
  split at h
  · rename_i htext
    split at h
    · rename_i ht
      cases h
      exact ⟨.hexadecimal htext ht, rfl⟩
    · cases h
  · rename_i htext
    split at h
    · rename_i ht
      cases h
      exact ⟨.binary htext ht, rfl⟩
    · cases h
  · rename_i hhex hbinary
    split at h
    · rename_i ht
      cases h
      exact ⟨.definition (mem_of_lookup ht), rfl⟩
    · obtain ⟨c, d, hget, hfound⟩ := exists_of_run_bind h
      cases hget
      split at hfound
      · rename_i ht
        cases hfound
        exact ⟨.symbol ⟨htrue, hfalse, hhex, hbinary⟩ ht, rfl⟩
      · cases hfound

/-! ### Applications -/

/-- What touching an element can do: to read a location that is there, or to open one. -/
theorem touch_cases {array : Variable} {index : Term} {kind : AccessKind} {l : Location}
    (h : (touch array index kind).run b = .ok (l, b')) :
    let slot : Slot := ⟨array.name, (addressOf index).1, (addressOf index).2⟩
    (kind = .read ∧ b.latest.lookup slot = some l ∧ b' = b) ∨
      ((kind = .read → b.latest.lookup slot = none) ∧ l.base = slot.base ∧
        l.address = slot.address ∧ l.epoch = b.epoch slot.base slot.address ∧
        b' = { b with memory := b.memory ++ [l], latest := (slot, l) :: b.latest }) := by
  unfold touch at h
  rw [StateT.run_bind] at h
  dsimp only [StateT.run_get, bind, Except.bind, pure, Except.pure] at h
  split at h
  · rename_i hlatest
    cases h
    exact .inl ⟨rfl, hlatest, rfl⟩
  · rename_i hnone
    cases h
    refine .inr ⟨?_, rfl, rfl, rfl, rfl⟩
    intro hkind
    rw [Option.eq_none_iff_forall_ne_some]
    intro l hl
    exact hnone l hkind hl

/-- The head of an application, with the name and the indices that it gives, and with the operator
that it stands for, if that is known. -/
inductive Heads : SExpr → String → List Nat → Option Op → Prop
  | plain {line : Nat} {name : String} (hmark : name ≠ "_") (hlet : name ≠ "let") :
      Heads (.atom line name) name [] (Op.ofName? name)
  | indexed {line : Nat} {items : List SExpr} {name : String} {indices : List Nat}
      (h : indexedHead (.list line items) = .ok (name, indices)) :
      Heads (.list line items) name indices (indexedOp? name)

/-- What an application makes of its converted arguments. -/
inductive Applies (o? : Option Op) (name : String) (indices : List Nat) (args : List Term)
    (b : Builder) : Term → Builder → Prop
  | unknown (ho : o? = none) : Applies o? name indices args b (applyUnknown name indices args) b
  | access {kind : AccessKind} {a index : Term} {rest : List Term} {array : Variable}
      {l : Location} {b' : Builder} (harity : kind.op.arity.allows args.length = true)
      (hargs : args = a :: index :: rest) (harray : a.arrayOf? = some array)
      (htouch : (touch array index kind).run b = .ok (l, b')) :
      Applies o? name indices args b
        (.apply (.access kind l) args (if kind = .read then array.width else 0)) b'
  | op {o : Op} {w : Nat} (ho : o? = some o) (hmemory : o.isMemory = false)
      (harity : o.arity.allows args.length = true) (hw : resultWidth o indices args = .ok w) :
      Applies o? name indices args b (.apply (.op o indices) args w) b

/-- An access becomes one of the applications there can be. -/
theorem applyAccess_cases {line : Nat} {kind : AccessKind} {args : List Term} {t : Term}
    (h : (applyAccess line kind args).run b = .ok (t, b'))
    (harity : kind.op.arity.allows args.length = true) (o? : Option Op) (name : String)
    (indices : List Nat) : Applies o? name indices args b t b' := by
  unfold applyAccess at h
  split at h
  · split at h
    · cases h
    · rename_i harray
      obtain ⟨l, c, htouch, hpure⟩ := exists_of_run_bind h
      cases hpure
      exact .access harity rfl harray htouch
  · cases h

/-- An operator becomes one of the applications there can be. -/
theorem applyOp_cases {line : Nat} {o : Op} {indices : List Nat} {args : List Term} {t : Term}
    (h : (applyOp line o indices args).run b = .ok (t, b')) (name : String) :
    Applies (some o) name indices args b t b' := by
  unfold applyOp at h
  by_cases harity : o.arity.allows args.length = true
  · simp only [harity, Bool.not_true, Bool.false_eq_true, if_false] at h
    split at h
    · exact applyAccess_cases h harity _ _ _
    · exact applyAccess_cases h harity _ _ _
    · rename_i hselect hstore
      have hmemory : o.isMemory = false := by
        cases o with
        | select => exact absurd rfl hselect
        | store => exact absurd rfl hstore
        | _ => rfl
      split at h
      · rename_i hw
        cases h
        exact .op rfl hmemory harity hw
      · cases h
  · simp only [harity, Bool.not_false, if_true] at h
    cases h

/-- An operator other than an access is applied as it is, if its result has a width. -/
theorem applyOp_of_not_memory {line : Nat} {o : Op} {indices : List Nat} {args : List Term}
    {t : Term} (ho : o.isMemory = false)
    (h : (applyOp line o indices args).run b = .ok (t, b')) :
    ∃ w, resultWidth o indices args = .ok w ∧ t = .apply (.op o indices) args w := by
  unfold applyOp at h
  by_cases harity : o.arity.allows args.length = true
  · simp only [harity, Bool.not_true, Bool.false_eq_true, if_false] at h
    split at h
    · cases ho
    · cases ho
    · split at h
      · rename_i hw
        cases h
        exact ⟨_, hw, rfl⟩
      · cases h
  · simp only [harity, Bool.not_false, if_true] at h
    cases h

/-! ### Expressions -/

/-- A let converts its definitions, and then its body where they are in scope. -/
theorem convert_let_cases {scope : Scope} {line headLine line' : Nat} {definitions : List SExpr}
    {body : SExpr} {t : Term}
    (h : (convert scope (.list line [.atom headLine "let", .list line' definitions, body])).run b =
      .ok (t, b')) :
    ∃ inner c, (define scope definitions).run b = .ok (inner, c) ∧
      (convert (inner ++ scope) body).run c = .ok (t, b') := by
  rw [convert, if_neg (by decide), if_pos rfl] at h
  exact exists_of_run_bind h

/-- Induction over the conversions that succeed. What is shown of expressions (`P`), of the
definitions of a let (`D`) and of arguments (`A`) may depend on the builders before and after. -/
theorem convert_induction {P : Scope → Builder → SExpr → Term → Builder → Prop}
    {D : Scope → Builder → List SExpr → Scope → Builder → Prop}
    {A : Scope → Builder → List SExpr → List Term → Builder → Prop}
    (atom : ∀ scope b line text t, AtomTerm scope b text t → P scope b (.atom line text) t b)
    (literal : ∀ scope b line headLine rest t,
      indexedLiteral (.list line (.atom headLine "_" :: rest)) = .ok t →
        P scope b (.list line (.atom headLine "_" :: rest)) t b)
    (binding : ∀ scope b c b' line headLine line' definitions body inner t,
      (define scope definitions).run b = .ok (inner, c) → D scope b definitions inner c →
        P (inner ++ scope) c body t b' →
        P scope b (.list line [.atom headLine "let", .list line' definitions, body]) t b')
    (application : ∀ scope b c b' line head rest name indices o? args t,
      (convert scope (.list line (head :: rest))).run b = .ok (t, b') →
        Heads head name indices o? → A scope b rest args c → Applies o? name indices args c t b' →
        P scope b (.list line (head :: rest)) t b')
    (noDefinition : ∀ scope b, D scope b [] [] b)
    (definition : ∀ scope b c b' line line' name e definitions t later,
      (convert scope e).run b = .ok (t, c) → P scope b e t c → D scope c definitions later b' →
        D scope b (.list line [.atom line' name, e] :: definitions) (later ++ [(name, t)]) b')
    (noArgument : ∀ scope b, A scope b [] [] b)
    (argument : ∀ scope b c b' e es t ts,
      (convert scope e).run b = .ok (t, c) → P scope b e t c → A scope c es ts b' →
        A scope b (e :: es) (t :: ts) b')
    {scope : Scope} {e : SExpr} {t : Term} (h : (convert scope e).run b = .ok (t, b')) :
    P scope b e t b' := by
  refine convert.induct
    (fun scope e => ∀ b t b', (convert scope e).run b = .ok (t, b') → P scope b e t b')
    (fun scope es => ∀ b ds b', (define scope es).run b = .ok (ds, b') → D scope b es ds b')
    (fun scope es => ∀ b ts b', (convertAll scope es).run b = .ok (ts, b') → A scope b es ts b')
    ?atom ?empty ?indexed ?literal ?binding ?malformed ?application ?noDefinition ?definition
    ?noBinding ?noArgument ?argument scope e b t b' h
  case atom =>
    intro scope line text b t b' h
    rw [convert] at h
    obtain ⟨ht, rfl⟩ := atomTerm_cases h
    exact atom scope _ line text t ht
  case empty =>
    intro scope line b t b' h
    rw [convert] at h
    cases h
  case indexed =>
    intro scope line headLine headItems rest ih b t b' h
    have hrun := h
    rw [convert] at hrun
    obtain ⟨⟨name, indices⟩, c, hlocated, hrest⟩ := exists_of_run_bind hrun
    obtain ⟨hhead, rfl⟩ := located_cases hlocated
    obtain ⟨args, d, hargs, happly⟩ := exists_of_run_bind hrest
    refine application scope _ d b' line _ rest name indices _ args t h (.indexed hhead)
      (ih _ _ _ hargs) ?_
    split at happly
    · rename_i ho
      rw [ho]
      exact applyOp_cases happly name
    · rename_i ho
      cases happly
      exact .unknown ho
  case literal =>
    intro scope line headLine rest b t b' h
    rw [convert.eq_def] at h
    obtain ⟨ht, rfl⟩ := located_cases h
    exact literal scope _ line headLine rest t ht
  case binding =>
    intro scope line headLine line' definitions body _ ihdef ihbody b t b' h
    obtain ⟨inner, c, hinner, hbody⟩ := convert_let_cases h
    exact binding scope b c b' line headLine line' definitions body inner t hinner
      (ihdef _ _ _ hinner) (ihbody inner _ _ _ hbody)
  case malformed =>
    intro scope line headLine rest hrest _ b t b' h
    rw [convert, if_neg (by decide), if_pos rfl] at h
    · cases h
    · exact hrest
  case application =>
    intro scope line headLine head rest hmark hlet ih b t b' h
    have hrun := h
    rw [convert.eq_def] at hrun
    simp only [if_neg hmark, if_neg hlet] at hrun
    obtain ⟨args, c, hargs, happly⟩ := exists_of_run_bind hrun
    refine application scope b c b' line _ rest head [] _ args t h (.plain hmark hlet)
      (ih _ _ _ hargs) ?_
    split at happly
    · rename_i ho
      rw [ho]
      exact applyOp_cases happly head
    · rename_i ho
      cases happly
      exact .unknown ho
  case noDefinition =>
    intro scope b ds b' h
    rw [define] at h
    cases h
    exact noDefinition scope b
  case definition =>
    intro scope line line' name e definitions ih ihrest b ds b' h
    rw [define] at h
    obtain ⟨t, c, ht, hrest⟩ := exists_of_run_bind h
    obtain ⟨later, d, hlater, hpure⟩ := exists_of_run_bind hrest
    cases hpure
    exact definition scope b c _ line line' name e definitions t later ht (ih _ _ _ ht)
      (ihrest _ _ _ hlater)
  case noBinding =>
    intro scope d tail hd b ds b' h
    rw [define] at h
    · cases h
    · exact hd
  case noArgument =>
    intro scope b ts b' h
    rw [convertAll] at h
    cases h
    exact noArgument scope b
  case argument =>
    intro scope e es ih ihrest b ts b' h
    rw [convertAll] at h
    obtain ⟨t, c, ht, hrest⟩ := exists_of_run_bind h
    obtain ⟨ts', d, hts, hpure⟩ := exists_of_run_bind hrest
    cases hpure
    exact argument scope b c _ e es t ts' ht (ih _ _ _ ht) (ihrest _ _ _ hts)

/-- Symbols and constraints are as before. -/
structure Kept (b b' : Builder) : Prop where
  declared : b'.declared = b.declared
  cells : b'.cells = b.cells
  constraints : b'.constraints = b.constraints

/-- A builder has its own symbols and constraints. -/
theorem Kept.refl (b : Builder) : b.Kept b :=
  ⟨rfl, rfl, rfl⟩

/-- What two steps keep is kept by both together. -/
theorem Kept.trans {c : Builder} (h : b.Kept c) (h' : c.Kept b') : b.Kept b' :=
  ⟨h'.declared.trans h.declared, h'.cells.trans h.cells, h'.constraints.trans h.constraints⟩

/-- An application declares and asserts nothing. -/
theorem Applies.kept {o? : Option Op} {name : String} {indices : List Nat} {args : List Term}
    {t : Term} (h : Applies o? name indices args b t b') : b.Kept b' := by
  cases h with
  | unknown _ => exact .refl b
  | access _ _ _ htouch =>
      rcases touch_cases htouch with ⟨-, -, rfl⟩ | ⟨-, -, -, -, rfl⟩
      · exact .refl _
      · exact ⟨rfl, rfl, rfl⟩
  | op _ _ _ _ => exact .refl b

/-- Converting an expression adds locations only. -/
theorem kept_of_convert {scope : Scope} {e : SExpr} {t : Term}
    (h : (convert scope e).run b = .ok (t, b')) : b.Kept b' := by
  refine convert_induction (P := fun _ b _ _ b' => b.Kept b') (D := fun _ b _ _ b' => b.Kept b')
    (A := fun _ b _ _ b' => b.Kept b') ?atom ?literal ?binding ?application ?noDefinition
    ?definition ?noArgument ?argument h
  case atom =>
    intro scope b line text t _
    exact .refl b
  case literal =>
    intro scope b line headLine rest t _
    exact .refl b
  case binding =>
    intro scope b c b' line headLine line' definitions body inner t _ hdef hbody
    exact hdef.trans hbody
  case application =>
    intro scope b c b' line head rest name indices o? args t _ _ hargs happlies
    exact hargs.trans happlies.kept
  case noDefinition =>
    intro scope b
    exact .refl b
  case definition =>
    intro scope b c b' line line' name e definitions t later _ he hrest
    exact he.trans hrest
  case noArgument =>
    intro scope b
    exact .refl b
  case argument =>
    intro scope b c b' e es t ts _ he hrest
    exact he.trans hrest

/-! ### Commands -/

/-- A sort has the width of a bit-vector. -/
theorem sortWidth_cases {sort : SExpr} {w : Nat} (h : (sortWidth sort).run b = .ok (w, b')) :
    b' = b ∧ 0 < w ∧ w ≤ maxWidth := by
  unfold sortWidth at h
  split at h
  · split at h
    · split at h
      · rename_i hw
        cases h
        simp only [Option.filter_eq_some_iff, Bool.and_eq_true, decide_eq_true_eq] at hw
        exact ⟨rfl, hw.2⟩
      · cases h
    · cases h
  · cases h

/-- What declaring a symbol does: its name is new, and it is added. A memory symbol comes with its
location. -/
theorem declare_cases {line : Nat} {name sort : SExpr}
    (h : (declare line name sort).run b = .ok ((), b')) :
    ∃ (l : Nat) (v : Variable), name = .atom l v.name ∧ b.symbol? v.name = none ∧
      (0 < v.width ∧ v.width ≤ maxWidth) ∧
      (v.role ≠ .memory ∧ b' = { b with declared := b.declared ++ [v] } ∨
        ∃ m : Location, m.name = v.name ∧ m.width = v.width ∧
          m.epoch = b.epoch m.base m.address ∧
          b' = { b with
            declared := b.declared ++ [v], memory := b.memory ++ [m],
            cells := (v.name, m) :: b.cells }) := by
  unfold Path.declare at h
  split at h
  · cases h
  · rename_i l name
    obtain ⟨_, _, hget, hchecked⟩ := exists_of_run_bind h
    cases hget
    by_cases hsymbol : (b.symbol? name).isSome = true
    · rw [if_pos hsymbol] at hchecked
      cases hchecked
    · have hnew : b.symbol? name = none := by simpa using hsymbol
      rw [if_neg hsymbol] at hchecked
      simp only at hchecked
      split at hchecked
      · obtain ⟨indexWidth, c, hindex, hrest⟩ := exists_of_run_bind hchecked
        obtain ⟨width, d, helement, harray⟩ := exists_of_run_bind hrest
        obtain ⟨rfl, -⟩ := sortWidth_cases hindex
        obtain ⟨rfl, hwidth⟩ := sortWidth_cases helement
        cases harray
        exact ⟨l, ⟨name, width, .array indexWidth⟩, rfl, hnew, hwidth, .inl ⟨by simp, rfl⟩⟩
      · obtain ⟨width, c, hsort, hword⟩ := exists_of_run_bind hchecked
        obtain ⟨rfl, hwidth⟩ := sortWidth_cases hsort
        obtain ⟨_, _, hget, hset⟩ := exists_of_run_bind hword
        cases hget
        split at hset
        · cases hset
          exact ⟨l, ⟨name, width, .memory⟩, rfl, hnew, hwidth, .inr ⟨_, rfl, rfl, rfl, rfl⟩⟩
        · cases hset
          exact ⟨l, ⟨name, width, .input⟩, rfl, hnew, hwidth, .inl ⟨by simp, rfl⟩⟩

/-- Terms as the constraints after the first `n`. -/
def numberedFrom (n : Nat) (ts : List Term) : List Constraint :=
  (ts.zipIdx n).map fun e => ⟨e.2, e.1⟩

/-- Numbering keeps the terms. -/
theorem map_term_numberedFrom (n : Nat) (ts : List Term) :
    (numberedFrom n ts).map (·.term) = ts := by
  rw [numberedFrom, List.map_map]
  exact List.zipIdx_map_fst n ts

/-- Constraints are numbered one after the other. -/
theorem map_index_numberedFrom (n : Nat) (ts : List Term) :
    (numberedFrom n ts).map (·.index) = List.range' n ts.length := by
  rw [numberedFrom, List.map_map]
  exact List.zipIdx_map_snd n ts

/-- There is a constraint for each term. -/
theorem length_numberedFrom (n : Nat) (ts : List Term) :
    (numberedFrom n ts).length = ts.length := by
  simp [numberedFrom]

/-- Each numbered constraint is of one of the terms. -/
theorem term_mem_of_mem_numberedFrom {n : Nat} {ts : List Term} {c : Constraint}
    (h : c ∈ numberedFrom n ts) : c.term ∈ ts := by
  rw [← map_term_numberedFrom n ts]
  exact List.mem_map_of_mem h

/-- Adding terms one by one appends them, numbered on. -/
theorem addConstraints_cases {ts : List Term} (h : (ts.forM addConstraint).run b = .ok ((), b')) :
    b' = { b with constraints := b.constraints ++ numberedFrom b.constraints.length ts } := by
  induction ts generalizing b with
  | nil =>
      cases h
      simp [numberedFrom]
  | cons t ts ih =>
      rw [List.forM, StateT.run_bind] at h
      rw [ih h]
      simp [numberedFrom, List.zipIdx_cons]

/-- What is asserted has no width, or applies an unknown operator, and its conjuncts are added. -/
theorem assert_cases {line : Nat} {t : Term} (h : (assert line t).run b = .ok ((), b')) :
    ((∃ name indices args w, t = .apply (.unknown name indices) args w) ∨
        t.width = 0 ∧ t.isArray = false) ∧
      b' = { b with
        constraints := b.constraints ++ numberedFrom b.constraints.length (conjuncts t) } := by
  unfold assert at h
  split at h
  · cases h
    exact ⟨.inl ⟨_, _, _, _, rfl⟩, rfl⟩
  · split at h
    · cases h
    · rename_i hboolean
      exact ⟨.inr (by simpa [not_or] using hboolean), addConstraints_cases h⟩

/-- What a command does: it declares a symbol, asserts a term or does nothing. -/
theorem command_cases {node : SExpr} (h : (command node).run b = .ok ((), b')) :
    (node.head ≠ "assert" ∧ ∃ line name sort, name ∈ node.items ∧
      (declare line name sort).run b = .ok ((), b')) ∨
    (node.head = "assert" ∧ ∃ line first e t c, node = .list line [first, e] ∧
      (convert [] e).run b = .ok (t, c) ∧ (assert line t).run c = .ok ((), b')) ∨
    (node.head ≠ "assert" ∧ b' = b) := by
  unfold command at h
  split at h
  · cases h
  · rename_i line items
    split at h
    · rename_i hhead
      have hne : (SExpr.list line items).head ≠ "assert" := by simp [hhead]
      split at h
      · exact .inl ⟨hne, line, _, _, by simp [SExpr.items], h⟩
      · cases h
      · cases h
    split at h
    · rename_i hhead
      have hne : (SExpr.list line items).head ≠ "assert" := by simp [hhead]
      split at h
      · exact .inl ⟨hne, line, _, _, by simp [SExpr.items], h⟩
      · cases h
    split at h
    · rename_i hhead
      split at h
      · obtain ⟨t, c, hconvert, hassert⟩ := exists_of_run_bind h
        exact .inr (.inl ⟨hhead, line, _, _, t, c, rfl, hconvert, hassert⟩)
      · cases h
    · rename_i hhead
      split at h
      · cases h
        exact .inr (.inr ⟨hhead, rfl⟩)
      · cases h

/-- What commands keep, one after the other, all of them keep. -/
theorem commands_induction {I : Builder → Prop} {nodes : List SExpr}
    (hstep : ∀ node ∈ nodes, ∀ b b', I b → (command node).run b = .ok ((), b') → I b') (hb : I b)
    (h : (commands nodes).run b = .ok ((), b')) : I b' := by
  induction nodes generalizing b with
  | nil =>
      cases h
      exact hb
  | cons node nodes ih =>
      obtain ⟨hnode, hnodes⟩ := List.forall_mem_cons.mp hstep
      rw [commands] at h
      obtain ⟨_, c, hfirst, hrest⟩ := exists_of_run_bind h
      exact ih hnodes (hnode b c hb hfirst) hrest

end Builder

end Pathwise.Path
