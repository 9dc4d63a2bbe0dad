import Pathwise.Proofs.Path.Provenance
import Pathwise.Proofs.Profile.Content
import Pathwise.Proofs.SExpr.Semantics
import Pathwise.Proofs.Term.Refinement

/-!
# Expanding definitions preserves meaning

Converting an expression replaces each bound name by the term of its definition, so a term has no
definitions any more. On well-sorted expressions without arrays, this does not show: the term
evaluates to what the expression means as it stands (`SExpr.Means`).

* **Steps** (`Builder.convert_symbol_cases`, `Builder.literal_of_convert`,
  `Builder.convert_application_cases`, `Builder.define_eq`): what conversion does with symbols,
  literals, applications and definitions.
* **Results** (`Term.Yields`): a term has the value of a meaning, and the width of its sort. An
  operator keeps that (`Term.yields_apply`).
* **Scopes** (`Scope.Follows`): the term that a name is converted to yields what the name means.
  A let keeps that (`Scope.Follows.rebind`): its definitions are converted outside it, and names are
  looked up among them first.
* **Expressions** (`Builder.yields_of_convert`): by induction over the meaning of an expression.
-/

namespace Pathwise

namespace Path.Builder

variable {b b' : Builder} {scope : Scope} {t : Term}

/-! ### Steps of conversion -/

/-- A name is looked up among the definitions, and then among the declared symbols. -/
theorem convert_symbol_cases {line : Nat} {name : String} (hname : IsSymbol name)
    (h : (convert scope (.atom line name)).run b = .ok (t, b')) :
    (scope.lookup name).or (b.symbolTerm? name) = some t := by
  rw [convert, atomTerm, if_neg hname.notTrue, if_neg hname.notFalse] at h
  split at h
  · rename_i digits htext
    exact absurd htext (hname.notHex digits)
  · rename_i digits htext
    exact absurd htext (hname.notBinary digits)
  · split at h
    · rename_i hscope
      cases h
      rw [hscope, Option.some_or]
    · rename_i hscope
      rw [hscope, Option.none_or]
      obtain ⟨_, _, hget, hfound⟩ := exists_of_run_bind h
      cases hget
      split at hfound
      · rename_i ht
        cases hfound
        exact ht
      · cases hfound

/-- A literal in base 2 or 16 has the number that its digits spell. -/
theorem eq_literal_of_radixLiteral? {base bits n : Nat} (hbase : 1 < base ∧ base ≤ 16)
    (hbits : base = 2 ^ bits) {digits : List Char} (hn : Text.Spells base digits n)
    (h : radixLiteral? base bits digits = some t) : t = .literal n (digits.length * bits) := by
  obtain ⟨i, rfl, hi, hmax⟩ := radixLiteral?_eq_some hbase.2 h
  obtain rfl := hn.eq_of_spellsInt hbase.2 hi
  have hlt : n < 2 ^ (digits.length * bits) := by
    rw [Nat.mul_comm, Nat.pow_mul, ← hbits]
    exact hn.lt hbase.1
  rw [wrapped_of_nonneg (Int.natCast_nonneg n) (by exact_mod_cast hlt) hmax, Int.toNat_natCast]

/-- A literal `(_ bvN W)` has the number and the width that its numerals spell. -/
theorem eq_literal_of_indexedLiteral {line l₁ l₂ n w : Nat} {name : String} {digits : List Char}
    {width : SExpr} (hname : name.toList = 'b' :: 'v' :: digits) (hn : Text.Spells 10 digits n)
    (hw : width.IsNumeral w)
    (h : indexedLiteral (.list line [.atom l₁ "_", .atom l₂ name, width]) = .ok t) :
    t = .literal n w := by
  obtain ⟨i, v, rfl, hwrites⟩ := indexedLiteral_eq_ok h
  obtain ⟨hw⟩ := hw
  cases hwrites with
  | indexed hname' hi hwidth hmax hnonneg hlt =>
      obtain rfl : digits = _ := List.cons.inj (List.cons.inj (hname.symm.trans hname')).2 |>.2
      obtain rfl := hn.eq_of_spellsInt (by decide) hi
      obtain rfl := hw.unique (by decide) hwidth
      rw [wrapped_of_nonneg hnonneg hlt hmax, Int.toNat_natCast]

/-- What begins with a number sign is no truth value. -/
theorem not_constant {text : String} {cs : List Char} (h : text.toList = '#' :: cs) :
    text ≠ "true" ∧ text ≠ "false" := by
  constructor
  · rintro rfl
    simp at h
  · rintro rfl
    simp at h

/-- Literals are converted to terms with their number and their width. -/
theorem literal_of_convert {e : SExpr} {n w : Nat} (he : e.IsLiteral n w)
    (h : (convert scope e).run b = .ok (t, b')) : t = .literal n w := by
  cases he with
  | @hexadecimal _ _ digits _ htext hn =>
      obtain ⟨htrue, hfalse⟩ := not_constant htext
      rw [convert, atomTerm, if_neg htrue, if_neg hfalse, htext] at h
      cases hread : radixLiteral? 16 4 digits with
      | none =>
          simp only [hread] at h
          cases h
      | some u =>
          simp only [hread] at h
          cases h
          exact eq_literal_of_radixLiteral? (by decide) rfl hn hread
  | @binary _ _ digits _ htext hn =>
      obtain ⟨htrue, hfalse⟩ := not_constant htext
      rw [convert, atomTerm, if_neg htrue, if_neg hfalse, htext] at h
      cases hread : radixLiteral? 2 1 digits with
      | none =>
          simp only [hread] at h
          cases h
      | some u =>
          simp only [hread] at h
          cases h
          exact eq_literal_of_radixLiteral? (by decide) rfl hn hread
  | indexed hname hn hw =>
      rw [convert.eq_def] at h
      obtain ⟨hread, -⟩ := located_cases h
      exact eq_literal_of_indexedLiteral hname hn hw hread

/-! ### Applications -/

/-- The indices of an operator are the numbers that its numerals spell. -/
theorem eq_of_indexList {head : SExpr} {es : List SExpr} {is js : List Nat}
    (hes : List.Forall₂ SExpr.IsNumeral es is) (h : indexList head es = .ok js) : js = is := by
  induction hes generalizing js with
  | nil =>
      cases h
      rfl
  | @cons e i es is he hes ih =>
      obtain ⟨hi⟩ := he
      rw [indexList] at h
      split at h
      · cases h
      · rename_i n hn
        obtain ⟨hn, -⟩ := Option.filter_eq_some_iff.mp hn
        have hspells := (Text.digits?_eq_some_iff (by decide)).mp hn
        obtain rfl := hi.unique (by decide) hspells
        cases hrest : indexList head es with
        | error c =>
            rw [hrest] at h
            cases h
        | ok rest =>
            rw [hrest] at h
            cases h
            rw [ih hrest]

/-- An application converts its arguments and applies the operator that its head names. -/
theorem convert_application_cases {line : Nat} {head : SExpr} {es : List SExpr} {o : Op}
    {indices : List Nat} (hhead : head.NamesOp o indices)
    (hindexed : indices ≠ [] → indexedOp? o.name = some o)
    (h : (convert scope (.list line (head :: es))).run b = .ok (t, b')) :
    ∃ args c, (convertAll scope es).run b = .ok (args, c) ∧
      (applyOp line o indices args).run c = .ok (t, b') := by
  cases hhead with
  | plain headLine o =>
      have hmark : o.name ≠ "_" := by cases o <;> decide
      have hlet : o.name ≠ "let" := by cases o <;> decide
      rw [convert.eq_def] at h
      simp only [if_neg hmark, if_neg hlet, Op.ofName?_name] at h
      exact exists_of_run_bind h
  | @indexed headLine l₁ l₂ o numerals _ hnumerals hne =>
      rw [convert] at h
      obtain ⟨⟨name, is⟩, c, hlocated, hrest⟩ := exists_of_run_bind h
      obtain ⟨hread, rfl⟩ := located_cases hlocated
      simp only [indexedHead, SExpr.items, if_true] at hread
      cases hlist : indexList (.list headLine (.atom l₁ "_" :: .atom l₂ o.name :: numerals))
        numerals with
      | error cause =>
          rw [hlist] at hread
          cases hread
      | ok js =>
          obtain rfl := eq_of_indexList hnumerals hlist
          rw [hlist] at hread
          cases hread
          simp only [hindexed hne] at hrest
          exact exists_of_run_bind hrest

/-- Definitions are converted like arguments. The last of them comes first. -/
theorem define_eq (scope : Scope) (ds : List SExpr.Definition) :
    define scope (ds.map (·.node)) =
      (fun ts => ((ds.map (·.name)).zip ts).reverse) <$> convertAll scope (ds.map (·.value)) := by
  induction ds with
  | nil =>
      simp only [List.map_nil, define, convertAll, map_pure]
      rfl
  | cons d ds ih =>
      simp only [List.map_cons, SExpr.Definition.node, define, convertAll] at ih ⊢
      rw [ih]
      simp

end Path.Builder

/-! ### Results of evaluation -/

namespace Term

open Pathwise.Path

variable {env : Assignment}

/-- Evaluating a term gives the value of a meaning, and the term has the width of its sort. -/
structure Yields (env : Assignment) (t : Term) (m : Meaning) : Prop where
  eval_eq : t.eval env = .ok m.value
  isData : m.isData = true
  width_eq : t.width = m.sort.width

/-- A term yields at most one meaning. -/
theorem Yields.unique {t : Term} {m n : Meaning} (hm : t.Yields env m) (hn : t.Yields env n) :
    m = n := by
  have hvalue := hm.eval_eq.symm.trans hn.eval_eq
  exact Meaning.value_inj hm.isData hn.isData (Except.ok.inj hvalue)

/-- Comparisons have no width. -/
theorem resultWidth_of_order {o : Op} (ho : o.order?.isSome) (indices : List Nat)
    (args : List Term) : resultWidth o indices args = .ok 0 := by
  cases o <;> first | rfl | cases ho

/-- Operations on bit-vectors have the width of their first argument. -/
theorem resultWidth_of_table {o : Op}
    (ho : o.binary?.isSome ∨ o.folded?.isSome ∨ o.unary?.isSome) (indices : List Nat)
    (args : List Term) : resultWidth o indices args = .ok (firstWidth args) := by
  cases o <;> first | rfl | simp [Op.binary?, Op.folded?, Op.unary?] at ho

/-- The width of the first argument is that of what it stands for. -/
theorem firstWidth_eq {ts : List Term} {m : Meaning} {ms : List Meaning}
    (h : ts.map width = (m :: ms).map (·.sort.width)) : firstWidth ts = m.sort.width := by
  obtain ⟨t, ts, rfl, ht, -⟩ := List.map_eq_cons_iff.mp h
  exact ht

/-- Widths are added up. -/
theorem foldl_width (ts : List Term) (n : Nat) :
    ts.foldl (fun n t => n + t.width) n = n + (ts.map width).sum := by
  induction ts generalizing n with
  | nil => rfl
  | cons t ts ih => rw [List.foldl_cons, ih, List.map_cons, List.sum_cons, Nat.add_assoc]

/-- The width of a concatenation is the sum of the widths. -/
theorem width_foldl_append {m : Meaning} {ms : List Meaning}
    (hs : ∀ n ∈ m :: ms, ∃ w, n.sort = .bits w) :
    (ms.foldl Meaning.append m).sort.width = ((m :: ms).map (·.sort.width)).sum := by
  obtain ⟨⟨v, hv⟩, hms⟩ := List.forall_mem_cons.mp hs
  have hwidths : ms.map Meaning.sort = (ms.map (·.sort.width)).map .bits := by
    rw [List.map_map]
    refine List.map_congr_left fun n hn => ?_
    obtain ⟨w, hw⟩ := hms n hn
    simp [hw, TermSort.width]
  rw [Op.sort_foldl_append ms hv hwidths, List.map_cons, List.sum_cons, hv]
  rfl

/-- The width that an operator is given is that of the sort of its result. -/
theorem width_of_denotes {o : Op} {indices : List Nat} {ms : List Meaning} {m : Meaning}
    (ho : o.Denotes indices ms m) {args : List Term} {w : Nat}
    (hargs : args.map width = ms.map (·.sort.width))
    (hw : resultWidth o indices args = .ok w) : w = m.sort.width := by
  cases ho with
  | eq hs hb => cases hw; rfl
  | distinct hs hb => cases hw; rfl
  | order hf x y =>
      rw [resultWidth_of_order (by simp [hf])] at hw
      cases hw
      rfl
  | binary hf x y =>
      rw [resultWidth_of_table (.inl (by simp [hf]))] at hw
      cases hw
      exact firstWidth_eq hargs
  | folded hf x ys =>
      rw [resultWidth_of_table (.inr (.inl (by simp [hf])))] at hw
      cases hw
      exact firstWidth_eq hargs
  | unary hf x =>
      rw [resultWidth_of_table (.inr (.inr (by simp [hf])))] at hw
      cases hw
      exact firstWidth_eq hargs
  | extract x hi lo => exact (resultWidth_extract hw).2.2
  | zeroExtend x n =>
      rw [resultWidth_extend (.inl rfl) hw, firstWidth_eq hargs]
      rfl
  | signExtend x n =>
      rw [resultWidth_extend (.inr rfl) hw, firstWidth_eq hargs]
      rfl
  | concat hs =>
      simp only [resultWidth] at hw
      split at hw
      · cases hw
      · cases hw
        rw [foldl_width, hargs, Nat.zero_add, width_foldl_append hs]
  | not b => cases hw; rfl
  | and bs => cases hw; rfl
  | or bs => cases hw; rfl
  | implies a b => cases hw; rfl
  | ite b hs =>
      obtain ⟨c, branches, rfl, -, hbranches⟩ := List.map_eq_cons_iff.mp hargs
      cases hw
      rw [List.tail_cons, firstWidth_eq hbranches]
      cases b
      · exact congrArg TermSort.width hs
      · rfl

/-- An operator yields what it stands for, if its arguments yield what they stand for. -/
theorem yields_apply {o : Op} {indices : List Nat} {ms : List Meaning} {m : Meaning}
    (ho : o.Denotes indices ms m) {args : List Term} {w : Nat} (hlen : args.length = ms.length)
    (hargs : ∀ p ∈ args.zip ms, p.1.Yields env p.2)
    (hw : resultWidth o indices args = .ok w) :
    (Term.apply (.op o indices) args w).Yields env m := by
  have hwidths : args.map width = ms.map (·.sort.width) := by
    refine List.ext_getElem (by simp [hlen]) fun i hi hj => ?_
    rw [List.length_map] at hi hj
    have hzip : (args[i], ms[i]) ∈ args.zip ms :=
      List.mem_iff_getElem.mpr ⟨i, by simp [hi, hj], List.getElem_zip⟩
    rw [List.getElem_map, List.getElem_map, (hargs _ hzip).width_eq]
  obtain rfl := width_of_denotes ho hwidths hw
  obtain ⟨heval, hdata⟩ := eval_of_args ho hlen fun p hp =>
    ⟨(hargs p hp).eval_eq, (hargs p hp).isData⟩
  exact ⟨heval, hdata, rfl⟩

end Term

/-! ### Scopes -/

namespace Path

variable {env : Assignment} {meaningOf : String → Option Meaning} {b b' : Builder} {scope : Scope}

/-- The term that a name is converted to yields what the name means. -/
def Scope.Follows (env : Assignment) (meaningOf : String → Option Meaning) (b : Builder)
    (scope : Scope) : Prop :=
  ∀ name t m, (scope.lookup name).or (b.symbolTerm? name) = some t → meaningOf name = some m →
    t.Yields env m

/-- Without definitions, names mean what an assignment says of the declared symbols. -/
theorem Scope.follows_nil (b : Builder) (env : Assignment) :
    Scope.Follows env (SExpr.declaredMeaning b.declared env) b [] := by
  intro name t m ht hm
  rw [List.lookup_nil, Option.none_or] at ht
  obtain ⟨v, hv, rfl⟩ := Option.map_eq_some_iff.mp ht
  obtain ⟨-, rfl⟩ := Builder.symbol?_eq_some hv
  have hfind : b.declared.find? (·.name == v.name) = some v := hv
  simp only [SExpr.declaredMeaning, hfind, Option.bind_some] at hm
  have hword {n : Nat} (hn : env v.name = some n) : Term.symbolValue env v.name v.width =
      .ok (.ofBitVec (BitVec.ofNat v.width n)) := by
    simp only [Term.symbolValue, hn, Value.ofNat_eq_ofBitVec]
  cases hrole : v.role with
  | array i => simp [hrole] at hm
  | input =>
      simp only [hrole, Option.map_eq_some_iff] at hm ⊢
      obtain ⟨n, hn, rfl⟩ := hm
      exact ⟨hword hn, rfl, rfl⟩
  | memory =>
      simp only [hrole, Option.map_eq_some_iff] at hm ⊢
      obtain ⟨n, hn, rfl⟩ := hm
      split
      · exact ⟨hword hn, rfl, rfl⟩
      · exact ⟨hword hn, rfl, rfl⟩

/-- What is in scope means the same as long as the symbols are kept. -/
theorem Scope.Follows.of_kept (h : scope.Follows env meaningOf b) (hkept : b.Kept b') :
    scope.Follows env meaningOf b' := by
  have hsymbols (name : String) : b'.symbolTerm? name = b.symbolTerm? name := by
    simp only [Builder.symbolTerm?, Builder.symbol?, hkept.declared, hkept.cells]
  intro name t m ht
  rw [hsymbols] at ht
  exact h name t m ht

/-- Where names are different, the order of entries does not matter for looking them up. -/
theorem lookup_reverse {α : Type} {entries : List (String × α)}
    (h : (entries.map (·.1)).Nodup) (name : String) :
    entries.reverse.lookup name = entries.lookup name := by
  induction entries with
  | nil => rfl
  | cons e entries ih =>
      obtain ⟨key, a⟩ := e
      rw [List.map_cons, List.nodup_cons] at h
      rw [List.reverse_cons, List.lookup_append, ih h.2, List.lookup_cons, List.lookup_cons]
      by_cases hname : name = key
      · have hnone : entries.lookup key = none := by
          rw [List.lookup_eq_none_iff]
          intro p hp
          simp only [bne_iff_ne]
          rintro rfl
          exact h.1 (List.mem_map.mpr ⟨p, hp, rfl⟩)
        simp [hname, hnone]
      · have hbeq : (name == key) = false := by simpa using hname
        simp [hbeq]

/-- A let keeps that the scope follows the meanings of names: the names that it binds are looked up
among its own definitions, and all others outside of them. -/
theorem Scope.Follows.rebind (h : scope.Follows env meaningOf b) {names : List String}
    (hnames : names.Nodup) {ts : List Term} {ms : List Meaning} (hlen : ts.length = ms.length)
    (hlength : names.length = ts.length) (hts : ∀ p ∈ ts.zip ms, p.1.Yields env p.2) :
    Scope.Follows env (SExpr.rebind names ms meaningOf) b ((names.zip ts).reverse ++ scope) := by
  -- terms and meanings are looked up side by side
  have hterms : ts = (ts.zip ms).map (·.1) := (List.map_fst_zip (Nat.le_of_eq hlen)).symm
  have hmeanings : ms = (ts.zip ms).map (·.2) := (List.map_snd_zip (Nat.le_of_eq hlen.symm)).symm
  have hkeys : ((names.zip ts).map (·.1)).Nodup := by
    rwa [List.map_fst_zip (Nat.le_of_eq hlength)]
  intro name t m ht hm
  rw [List.lookup_append, lookup_reverse hkeys, hterms, SExpr.lookup_zip_map] at ht
  rw [SExpr.rebind, hmeanings, SExpr.lookup_zip_map] at hm
  cases hbound : (names.zip (ts.zip ms)).lookup name with
  | none =>
      rw [hbound, Option.map_none, Option.none_or] at ht hm
      exact h name t m ht hm
  | some p =>
      rw [hbound, Option.map_some, Option.some_or] at ht hm
      cases ht
      cases hm
      exact hts p (List.of_mem_zip (Builder.mem_of_lookup hbound)).2

/-! ### Expressions -/

namespace Builder

variable {t : Term}

/-- Arguments yield their meanings, if each of them does wherever it is converted. -/
theorem yields_of_convertAll {es : List SExpr} {ts : List Term} {ms : List Meaning}
    (hlen : es.length = ms.length)
    (hes : ∀ p ∈ es.zip ms, ∀ c u c', b.Kept c → (convert scope p.1).run c = .ok (u, c') →
      u.Yields env p.2)
    (h : (convertAll scope es).run b = .ok (ts, b')) :
    b.Kept b' ∧ ts.length = ms.length ∧ ∀ p ∈ ts.zip ms, p.1.Yields env p.2 := by
  induction es generalizing b ts ms with
  | nil =>
      rw [convertAll] at h
      cases h
      exact ⟨.refl _, hlen, by simp⟩
  | cons e es ih =>
      obtain _ | ⟨m, ms⟩ := ms
      · cases hlen
      rw [convertAll] at h
      obtain ⟨t, c, ht, hrest⟩ := exists_of_run_bind h
      obtain ⟨ts, d, hts, hpure⟩ := exists_of_run_bind hrest
      cases hpure
      have hkept := kept_of_convert ht
      obtain ⟨hfirst, hes⟩ := List.forall_mem_cons.mp hes
      obtain ⟨hkept', hlength, hyields⟩ :=
        ih (Nat.succ.inj hlen) (fun p hp c u c' hc => hes p hp c u c' (hkept.trans hc)) hts
      refine ⟨hkept.trans hkept', congrArg Nat.succ hlength, ?_⟩
      exact List.forall_mem_cons.mpr ⟨hfirst b t c (.refl b) ht, hyields⟩

/-- An operator that has a meaning with indices is one that is applied with indices. -/
theorem indexedOp?_of_denotes {o : Op} {indices : List Nat} {ms : List Meaning} {m : Meaning}
    (ho : o.Denotes indices ms m) (hne : indices ≠ []) : indexedOp? o.name = some o := by
  cases ho with
  | extract x hi lo => decide
  | zeroExtend x n => decide
  | signExtend x n => decide
  | _ => exact absurd rfl hne

/-- The operators that have a meaning on values are no accesses. -/
theorem isMemory_of_denotes {o : Op} {indices : List Nat} {ms : List Meaning} {m : Meaning}
    (ho : o.Denotes indices ms m) : o.isMemory = false := by
  cases ho with
  | order hf x y => cases o <;> first | rfl | cases hf
  | binary hf x y => cases o <;> first | rfl | cases hf
  | folded hf x ys => cases o <;> first | rfl | cases hf
  | unary hf x => cases o <;> first | rfl | cases hf
  | _ => rfl

/-- A converted expression yields what the expression means. The induction is over the meaning, with
the scope and the builder left open: definitions are converted where the let stands, and the body
where they are in scope. -/
theorem yields_of_convert {e : SExpr} {m : Meaning} (he : e.Means meaningOf m)
    (hscope : scope.Follows env meaningOf b) (h : (convert scope e).run b = .ok (t, b')) :
    t.Yields env m := by
  induction he generalizing scope b b' t with
  | truth names line v =>
      rw [convert, atomTerm] at h
      cases v with
      | true =>
          cases h
          exact ⟨rfl, rfl, rfl⟩
      | false =>
          cases h
          exact ⟨rfl, rfl, rfl⟩
  | @literal _ _ n w he =>
      obtain rfl := literal_of_convert he h
      exact ⟨congrArg Except.ok (Value.ofNat_eq_ofBitVec n w), rfl, rfl⟩
  | symbol line hsymbol hm => exact hscope _ _ _ (convert_symbol_cases hsymbol h) hm
  | @binding _ line headLine line' ds body ms m hdistinct _ hlen _ _ ih ihbody =>
      obtain ⟨inner, c, hdefine, hbody⟩ := convert_let_cases h
      rw [define_eq, map_eq_pure_bind] at hdefine
      obtain ⟨ts, _, hts, hinner⟩ := exists_of_run_bind hdefine
      cases hinner
      have hvalues : ∀ p ∈ (ds.map (·.value)).zip ms, ∀ c u c', b.Kept c →
          (convert scope p.1).run c = .ok (u, c') → u.Yields env p.2 := by
        rw [List.zip_map_left]
        intro p hp c u c' hc hrun
        obtain ⟨q, hq, rfl⟩ := List.mem_map.mp hp
        exact ih q hq (hscope.of_kept hc) hrun
      obtain ⟨hkept, hlength, hyields⟩ := yields_of_convertAll (by simpa using hlen) hvalues hts
      refine ihbody ((hscope.of_kept hkept).rebind hdistinct hlength ?_ hyields) hbody
      simp [hlength, hlen]
  | @application _ line head es o indices ms m hhead hlen _ hm ih =>
      obtain ⟨args, c, hargs, happly⟩ :=
        convert_application_cases hhead (indexedOp?_of_denotes hm) h
      obtain ⟨-, hlength, hyields⟩ := yields_of_convertAll hlen
        (fun p hp c u c' hc hrun => ih p hp (hscope.of_kept hc) hrun) hargs
      obtain ⟨w, hw, rfl⟩ := applyOp_of_not_memory (isMemory_of_denotes hm) happly
      exact Term.yields_apply hm hlength hyields hw

end Builder

/-- **Expanding definitions preserves meaning.** Let an expression be well-sorted and without
arrays, whatever lets are nested in it, and let it be accepted where some symbols are declared, all
of which have values but the arrays. Then it has exactly one meaning, in which each let reads its
definitions outside of it, binds their names at once and hides what they stood for, and evaluating
the converted term gives that meaning. -/
theorem expansion_preserves_meaning {b b' : Builder} {e : SExpr} {s : TermSort} {t : Term}
    {env : Assignment} (hsort : e.HasSort (SExpr.declaredSort b.declared) s)
    (hconvert : (convert [] e).run b = .ok (t, b'))
    (henv : ∀ v ∈ b.declared, (∀ i, v.role ≠ .array i) → (env v.name).isSome) :
    ∃ m, m.sort = s ∧ (∀ n, e.Means (SExpr.declaredMeaning b.declared env) n ↔ n = m) ∧
      t.eval env = .ok m.value := by
  obtain ⟨m, hm, rfl⟩ := hsort.exists_means (SExpr.exists_declaredMeaning henv)
  have hyields (n : Meaning) (hn : e.Means (SExpr.declaredMeaning b.declared env) n) :
      t.Yields env n := Builder.yields_of_convert hn (Scope.follows_nil b env) hconvert
  refine ⟨m, rfl, fun n => ⟨?_, ?_⟩, (hyields m hm).eval_eq⟩
  · intro hn
    exact (hyields n hn).unique (hyields m hm)
  · rintro rfl
    exact hm

/-- Two names are exchanged by a let, and one of them is then bound again by what both stand for:
`(let ((x y) (y x)) (let ((x (bvsub x y)) (z x)) (bvult z x)))`, where 1 and 0 are assigned. -/
theorem expansion_preserves_meaning_exchanged :
    let word (name : String) : Variable := ⟨name, 8, .input⟩
    let b : Builder := { Builder.empty with declared := [word "x", word "y"] }
    let a := SExpr.atom 1
    let l := SExpr.list 1
    let e := l [a "let", l [l [a "x", a "y"], l [a "y", a "x"]],
      l [a "let", l [l [a "x", l [a "bvsub", a "x", a "y"]], l [a "z", a "x"]],
        l [a "bvult", a "z", a "x"]]]
    let env : Assignment := fun name => if name = "x" then some 1 else some 0
    e.HasSort (SExpr.declaredSort b.declared) .bool ∧
      (∀ v ∈ b.declared, (∀ i, v.role ≠ .array i) → (env v.name).isSome) ∧
      ∃ t, (convert [] e).run b = .ok (t, b) ∧ t.text = "(bvult y (bvsub y x))" ∧
        (∀ n, e.Means (SExpr.declaredMeaning b.declared env) n ↔ n = .bool true) ∧
        t.eval env = .ok (.bool true) := by
  intro word b a l e env
  have hsymbol : ∀ name ∈ ["x", "y", "z"], IsSymbol name := by
    simp only [List.forall_mem_cons]
    refine ⟨⟨?_, ?_, ?_, ?_⟩, ⟨?_, ?_, ?_, ?_⟩, ⟨?_, ?_, ?_, ?_⟩, List.forall_mem_nil _⟩ <;> simp
  have hname {sortOf : String → Option TermSort} (name : String) (h : name ∈ ["x", "y", "z"])
      (hs : sortOf name = some (.bits 8)) : (a name).HasSort sortOf (.bits 8) :=
    .symbol 1 (hsymbol name h) hs
  have hsort : e.HasSort (SExpr.declaredSort b.declared) .bool := by
    refine .binding_two 1 (hsymbol "x" (by decide)) (hsymbol "y" (by decide)) (by decide)
      (hname "y" (by decide) rfl) (hname "x" (by decide) rfl) ?_
    refine .binding_two (a := .bits 8) 1 (hsymbol "x" (by decide)) (hsymbol "z" (by decide))
      (by decide) ?_ (hname "x" (by decide) rfl) ?_
    · exact .application_two 1 1 (o := .sub) (hname "x" (by decide) rfl)
        (hname "y" (by decide) rfl) (.binary 8 rfl)
    · exact .application_two 1 1 (o := .ult) (hname "z" (by decide) rfl)
        (hname "x" (by decide) rfl) (.order 8 rfl)
  have henv : ∀ v ∈ b.declared, (∀ i, v.role ≠ .array i) → (env v.name).isSome := by
    intro v _ _
    simp only [env]
    split <;> rfl
  have hconvert : (convert [] e).run b = .ok (.apply (.op .ult []) [.input (word "y"),
      .apply (.op .sub []) [.input (word "y"), .input (word "x")] 8] 0, b) := rfl
  obtain ⟨m, hm, hmeans, heval⟩ := expansion_preserves_meaning hsort hconvert henv
  obtain ⟨v, rfl⟩ := Meaning.eq_bool_of_sort hm
  have htrue : v = true := by
    have hvalue : Term.eval env (.apply (.op .ult []) [.input (word "y"),
        .apply (.op .sub []) [.input (word "y"), .input (word "x")] 8] 0) = .ok (.bool true) := by
      decide +kernel
    rw [hvalue] at heval
    cases heval
    rfl
  subst htrue
  exact ⟨hsort, henv, _, hconvert, by decide +kernel, hmeans, heval⟩

end Path

end Pathwise
