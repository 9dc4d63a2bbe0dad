import Pathwise.Proofs.Term.Connectives
import Pathwise.Proofs.Term.Denotation
import Pathwise.Proofs.Term.Subterm
import Pathwise.Proofs.Term.Value

/-!
# Evaluation refines the standard meaning

The evaluator stops early where a connective is settled, computes with numbers and integers instead
of bit-vectors, and gives up on arrays and on symbols without a value. On a well-sorted term without
arrays, all of whose symbols have values, none of that shows: the result is the standard meaning.

* `strictValue_of_denotes`: an operator that evaluates all of its arguments computes its meaning.
* `Denotes.eval_eq`: by induction over the meaning of a term, evaluation succeeds with its value.
* `Constraint.holds_of_allHold`, `Constraint.exists_fails_of_allHold`: what the result for a list of
  constraints says about each of them.

A well-sorted term has one meaning, and evaluation finds it.
-/

namespace Pathwise

namespace Meaning

/-- The value for a meaning. Arrays have none, and the empty bit-vector stands in for it. -/
def value : Meaning → Value
  | bool b => .bool b
  | bits _ x => .ofBitVec x
  | array _ _ _ => .bits 0 0

/-- Whether a meaning is a boolean or a bit-vector. -/
def isData : Meaning → Bool
  | array _ _ _ => false
  | _ => true

/-- Among data of one sort, values are the same exactly if the meanings are equal. -/
theorem same_value_iff {m n : Meaning} (hm : m.isData) (hn : n.isData) (hs : m.sort = n.sort) :
    m.value.same n.value = true ↔ m = n := by
  cases m with
  | bool a =>
      obtain ⟨b, rfl⟩ := eq_bool_of_sort hs.symm
      simp [value]
  | bits w x =>
      obtain ⟨y, rfl⟩ := eq_bits_of_sort hs.symm
      simp [value]
  | array i w f => cases hm

/-- Data with one value and one sort are equal. -/
theorem value_inj {m n : Meaning} (hm : m.isData) (hn : n.isData) (h : m.value = n.value) :
    m = n := by
  cases m with
  | array i w f => cases hm
  | bool a => cases n <;> simp_all [value, Value.ofBitVec, isData]
  | bits w x =>
      cases n with
      | array i w f => cases hn
      | bool b => simp [value, Value.ofBitVec] at h
      | bits v y =>
          simp only [value, Value.ofBitVec, Value.bits.injEq] at h
          obtain ⟨hxy, rfl⟩ := h
          rw [BitVec.eq_of_toNat_eq hxy]

end Meaning

namespace Term

open Meaning Value

/-! ### Operators -/

/-- Orders of values are orders of bit-vectors. -/
theorem compareValues_of_order {o : Op} {f : (w : Nat) → BitVec w → BitVec w → Bool}
    (ho : o.order? = some f) {w : Nat} (x y : BitVec w) :
    compareValues o (ofBitVec x) (ofBitVec y) = f w x y := by
  have hlt := orderKey_lt_iff x y
  have hgt := orderKey_lt_iff y x
  cases o <;> simp only [Op.order?, Option.some.injEq, reduceCtorEq] at ho <;> subst ho <;>
    simp only [compareValues, Op.isSigned, if_true, if_false, toNat_ofBitVec, BitVec.ult,
      BitVec.ule, BitVec.slt, BitVec.sle, Bool.false_eq_true, ← Int.not_lt, ← Nat.not_lt,
      hlt, hgt]

/-- Operations on two values are operations on two bit-vectors. -/
theorem transformPair_of_binary {o : Op} {f : (w : Nat) → BitVec w → BitVec w → BitVec w}
    (ho : o.binary? = some f) {w : Nat} (x y : BitVec w) :
    transformPair o (ofBitVec x) (ofBitVec y) = ofBitVec (f w x y) := by
  cases o <;> simp only [Op.binary?, Option.some.injEq, reduceCtorEq] at ho <;> subst ho
  · exact transformPair_sub x y
  · exact transformPair_udiv x y
  · exact transformPair_sdiv x y
  · exact transformPair_urem x y
  · exact transformPair_srem x y
  · exact transformPair_shl x y
  · exact transformPair_lshr x y
  · exact transformPair_ashr x y

/-- Operations on many values are applied from left to right. -/
theorem transformValues_of_folded {o : Op} {f : (w : Nat) → BitVec w → BitVec w → BitVec w}
    (ho : o.folded? = some f) {w : Nat} (x : BitVec w) (ys : List (BitVec w)) :
    transformValues o (ofBitVec x :: ys.map ofBitVec) = ofBitVec (ys.foldl (f w) x) := by
  have hand (x y : BitVec w) : (x &&& y).toNat = (x.toNat &&& y.toNat) % 2 ^ w := by
    rw [← BitVec.toNat_and, Nat.mod_eq_of_lt (x &&& y).isLt]
  have hor (x y : BitVec w) : (x ||| y).toNat = (x.toNat ||| y.toNat) % 2 ^ w := by
    rw [← BitVec.toNat_or, Nat.mod_eq_of_lt (x ||| y).isLt]
  have hxor (x y : BitVec w) : (x ^^^ y).toNat = (x.toNat ^^^ y.toNat) % 2 ^ w := by
    rw [← BitVec.toNat_xor, Nat.mod_eq_of_lt (x ^^^ y).isLt]
  cases o <;> simp only [Op.folded?, Option.some.injEq, reduceCtorEq] at ho <;> subst ho
  · exact foldNats_ofBitVec BitVec.toNat_add x ys
  · exact foldNats_ofBitVec BitVec.toNat_mul x ys
  · exact foldNats_ofBitVec hand x ys
  · exact foldNats_ofBitVec hor x ys
  · exact foldNats_ofBitVec hxor x ys

/-- Operations on one value are operations on one bit-vector. -/
theorem transformValues_of_unary {o : Op} {f : (w : Nat) → BitVec w → BitVec w}
    (ho : o.unary? = some f) {w : Nat} (x : BitVec w) :
    transformValues o [ofBitVec x] = ofBitVec (f w x) := by
  cases o <;> simp only [Op.unary?, Option.some.injEq, reduceCtorEq] at ho <;> subst ho
  · exact transformValues_bvNot x
  · exact transformValues_bvNeg x

/-- Comparing all values with the first one is the same as comparing neighbours. -/
theorem allSame_iff {ms : List Meaning} {s : TermSort} (hdata : ∀ m ∈ ms, m.isData)
    (hs : ∀ m ∈ ms, m.sort = s) : allSame (ms.map value) = true ↔ ms.IsChain (· = ·) := by
  cases ms with
  | nil => simp [allSame]
  | cons m ms =>
      have hfirst : allSame ((m :: ms).map value) = true ↔ ∀ n ∈ ms, m = n := by
        simp only [allSame, List.map_cons, List.all_map, List.all_eq_true, Function.comp_apply]
        refine forall₂_congr fun n hn => same_value_iff (hdata m List.mem_cons_self)
          (hdata n (List.mem_cons_of_mem _ hn)) ?_
        rw [hs m List.mem_cons_self, hs n (List.mem_cons_of_mem _ hn)]
      rw [hfirst, List.isChain_iff_pairwise, List.pairwise_cons]
      constructor
      · intro h
        refine ⟨h, List.pairwise_of_forall_mem_list fun a ha b hb => ?_⟩
        rw [← h a ha, ← h b hb]
      · exact fun h => h.1

/-- Values are distinct just if what they stand for is. -/
theorem allDistinct_iff {ms : List Meaning} {s : TermSort} (hdata : ∀ m ∈ ms, m.isData)
    (hs : ∀ m ∈ ms, m.sort = s) : allDistinct (ms.map value) = true ↔ ms.Pairwise (· ≠ ·) := by
  induction ms with
  | nil => simp [allDistinct]
  | cons m ms ih =>
      have hne (n : Meaning) (hn : n ∈ ms) : (!m.value.same n.value) = true ↔ m ≠ n := by
        have hsort : m.sort = n.sort := by
          rw [hs m List.mem_cons_self, hs n (List.mem_cons_of_mem _ hn)]
        have hsame := same_value_iff (hdata m List.mem_cons_self)
          (hdata n (List.mem_cons_of_mem _ hn)) hsort
        rw [Bool.not_eq_true', ← Bool.not_eq_true, hsame]
      have htail := ih (fun n hn => hdata n (List.mem_cons_of_mem _ hn))
        fun n hn => hs n (List.mem_cons_of_mem _ hn)
      simp only [allDistinct, List.map_cons, Bool.and_eq_true, List.all_map, List.all_eq_true,
        Function.comp_apply, List.pairwise_cons, htail]
      exact and_congr_left' (forall₂_congr hne)

/-- Shifting a number and filling in the next one appends bit-vectors. -/
theorem foldl_append (ms : List Meaning) {w : Nat} (x : BitVec w)
    (hs : ∀ n ∈ ms, ∃ v, n.sort = .bits v) :
    ∃ v, ∃ y : BitVec v, ms.foldl append (.bits w x) = .bits v y ∧
      (ms.map value).foldl (fun n u => n <<< u.width ||| u.toNat) x.toNat = y.toNat := by
  induction ms generalizing w x with
  | nil => exact ⟨w, x, rfl, rfl⟩
  | cons m ms ih =>
      obtain ⟨v, hv⟩ := hs m List.mem_cons_self
      obtain ⟨y, rfl⟩ := eq_bits_of_sort hv
      obtain ⟨u, z, hz, hfold⟩ := ih (x ++ y) fun n hn => hs n (List.mem_cons_of_mem _ hn)
      refine ⟨u, z, hz, ?_⟩
      rw [BitVec.toNat_append] at hfold
      exact hfold

/-- Concatenation puts bit-vectors one after the other, and adds up their widths. -/
theorem strictValue_concat {m : Meaning} {ms : List Meaning}
    (hs : ∀ n ∈ m :: ms, ∃ w, n.sort = .bits w) :
    structuralValues .concat [] (ms.foldl append m).sort.width ((m :: ms).map value)
      = (ms.foldl append m).value ∧ (ms.foldl append m).isData := by
  obtain ⟨w, hw⟩ := hs m List.mem_cons_self
  obtain ⟨x, rfl⟩ := eq_bits_of_sort hw
  obtain ⟨v, y, hy, hfold⟩ := foldl_append ms x fun n hn => hs n (List.mem_cons_of_mem _ hn)
  have hstart : (0 <<< (ofBitVec x).width ||| (ofBitVec x).toNat) = x.toNat := by simp
  rw [hy]
  refine ⟨?_, rfl⟩
  simp only [structuralValues, List.map_cons, List.foldl_cons, value, hstart]
  rw [hfold]
  exact ofNat_toNat y

/-- Whether an operator may leave some of its arguments alone. -/
def isLazy : Op → Bool
  | .and | .or | .implies | .ite => true
  | _ => false

/-- Operators on bit-vectors evaluate all of their arguments. -/
theorem isLazy_eq_false_of_table {o : Op}
    (h : o.order?.isSome ∨ o.binary?.isSome ∨ o.folded?.isSome ∨ o.unary?.isSome) :
    isLazy o = false := by
  cases o <;> first | rfl | simp [Op.order?, Op.binary?, Op.folded?, Op.unary?] at h

/-- An operator that evaluates all of its arguments computes what it stands for. -/
theorem strictValue_of_denotes {o : Op} {indices : List Nat} {ms : List Meaning} {m : Meaning}
    (h : o.Denotes indices ms m) (ho : isLazy o = false) (hdata : ∀ n ∈ ms, n.isData) :
    strictValue o indices m.sort.width (ms.map value) = m.value ∧ m.isData := by
  cases h with
  | eq hs hb =>
      refine ⟨?_, rfl⟩
      have hiff := (allSame_iff hdata hs).trans hb.symm
      simp only [strictValue, value, Value.bool.injEq]
      exact Bool.eq_iff_iff.mpr hiff
  | distinct hs hb =>
      refine ⟨?_, rfl⟩
      have hiff := (allDistinct_iff hdata hs).trans hb.symm
      simp only [strictValue, value, Value.bool.injEq]
      exact Bool.eq_iff_iff.mpr hiff
  | order hf x y =>
      refine ⟨?_, rfl⟩
      rw [value, ← compareValues_of_order hf x y]
      cases o <;> first | rfl | cases hf
  | binary hf x y =>
      refine ⟨?_, rfl⟩
      rw [value, ← transformPair_of_binary hf x y]
      cases o <;> first | rfl | cases hf
  | folded hf x ys =>
      refine ⟨?_, rfl⟩
      have hmap : ((ys.map (Meaning.bits _)).map value) = ys.map ofBitVec := by
        rw [List.map_map]
        rfl
      rw [value, ← transformValues_of_folded hf x ys, List.map_cons, hmap]
      cases o <;> first | rfl | cases hf
  | unary hf x =>
      refine ⟨?_, rfl⟩
      rw [value, ← transformValues_of_unary hf x]
      cases o <;> first | rfl | cases hf
  | extract x hi lo => exact ⟨structuralValues_extract x hi lo, rfl⟩
  | zeroExtend x n => exact ⟨structuralValues_zeroExtend x n, rfl⟩
  | signExtend x n => exact ⟨structuralValues_signExtend x n, rfl⟩
  | concat hs => exact strictValue_concat hs
  | not b => exact ⟨rfl, rfl⟩
  | and bs => cases ho
  | or bs => cases ho
  | implies a b => cases ho
  | ite b hs => cases ho

/-! ### Terms -/

/-- An operator that evaluates all arguments is applied to their values. -/
theorem eval_op (env : Assignment) {o : Op} (ho : isLazy o = false) (indices : List Nat)
    {args : List Term} (w : Nat) {vs : List Value} (h : evalArgs env args = .ok vs) :
    eval env (.apply (.op o indices) args w) = .ok (strictValue o indices w vs) := by
  cases o <;> simp only [isLazy, Bool.true_eq_false] at ho <;> simp only [eval, h] <;> rfl

/-- Arguments are evaluated one by one. -/
theorem evalArgs_eq {env : Assignment} {args : List Term} {ms : List Meaning}
    (hlen : args.length = ms.length) (h : ∀ p ∈ args.zip ms, eval env p.1 = .ok p.2.value) :
    evalArgs env args = .ok (ms.map value) := by
  induction args generalizing ms with
  | nil =>
      obtain rfl : ms = [] := List.length_eq_zero_iff.mp hlen.symm
      rfl
  | cons t args ih =>
      obtain _ | ⟨m, ms⟩ := ms
      · simp at hlen
      have hhead : eval env t = .ok m.value := h (t, m) List.mem_cons_self
      have htail := ih (by simpa using hlen) fun p hp => h p (List.mem_cons_of_mem _ hp)
      simp only [evalArgs, hhead, htail]
      rfl

/-- Arguments that stand for truth values evaluate to them. -/
theorem eval_zip_of_bools {env : Assignment} {args : List Term} {bs : List Bool}
    (h : ∀ p ∈ args.zip (bs.map Meaning.bool), eval env p.1 = .ok p.2.value) :
    ∀ p ∈ args.zip bs, eval env p.1 = .ok (.bool p.2) := by
  intro p hp
  refine h (p.1, .bool p.2) ?_
  rw [List.zip_map_right]
  exact List.mem_map_of_mem hp

/-- A conjunction that stops at the first argument that fails has the value of the whole. -/
theorem evalAll_eq {env : Assignment} {args : List Term} {bs : List Bool}
    (hlen : args.length = bs.length)
    (h : ∀ p ∈ args.zip (bs.map Meaning.bool), eval env p.1 = .ok p.2.value) :
    evalAll env args = .ok (.bool (bs.all id)) := by
  have htrue : (if false ∈ bs then false else !false) = bs.all id := by
    rw [Bool.eq_iff_iff]
    simp
  rw [evalAll_eq_evalUntil, evalUntil_eq hlen (eval_zip_of_bools h), htrue]

/-- A disjunction evaluates to whether one of its arguments is true. -/
theorem evalAny_eq {env : Assignment} {args : List Term} {bs : List Bool}
    (hlen : args.length = bs.length)
    (h : ∀ p ∈ args.zip (bs.map Meaning.bool), eval env p.1 = .ok p.2.value) :
    evalAny env args = .ok (.bool (bs.any id)) := by
  have htrue : (if true ∈ bs then true else !true) = bs.any id := by
    rw [Bool.eq_iff_iff]
    simp
  rw [evalAny_eq_evalUntil, evalUntil_eq hlen (eval_zip_of_bools h), htrue]

/-- A connective whose arguments have values has the value that it stands for. -/
theorem eval_lazy {env : Assignment} {o : Op} {indices : List Nat} {args : List Term}
    {ms : List Meaning} {m : Meaning} (w : Nat) (ho : o.Denotes indices ms m)
    (hlazy : isLazy o = true) (hlen : args.length = ms.length)
    (hargs : ∀ p ∈ args.zip ms, eval env p.1 = .ok p.2.value ∧ p.2.isData) :
    eval env (.apply (.op o indices) args w) = .ok m.value ∧ m.isData := by
  cases ho with
  | and bs =>
      refine ⟨?_, rfl⟩
      rw [eval, evalAll_eq (by simpa using hlen) fun p hp => (hargs p hp).1]
      rfl
  | or bs =>
      refine ⟨?_, rfl⟩
      rw [eval, evalAny_eq (by simpa using hlen) fun p hp => (hargs p hp).1]
      rfl
  | implies a b =>
      obtain ⟨t, u, rfl⟩ := List.length_eq_two.mp hlen
      have ht : eval env t = .ok (.bool a) := (hargs (t, .bool a) (by simp)).1
      have hu : eval env u = .ok (.bool b) := (hargs (u, .bool b) (by simp)).1
      refine ⟨?_, rfl⟩
      simp only [eval, ht]
      cases a
      · rfl
      · exact hu
  | ite b hs =>
      rename_i m n
      obtain ⟨c, t, e, rfl⟩ := List.length_eq_three.mp hlen
      have hc : eval env c = .ok (.bool b) := (hargs (c, .bool b) (by simp)).1
      have ht := hargs (t, m) (by simp)
      have he := hargs (e, n) (by simp)
      simp only [eval, hc]
      cases b
      · exact he
      · exact ht
  | order hf x y => simp [isLazy_eq_false_of_table, hf] at hlazy
  | binary hf x y => simp [isLazy_eq_false_of_table, hf] at hlazy
  | folded hf x ys => simp [isLazy_eq_false_of_table, hf] at hlazy
  | unary hf x => simp [isLazy_eq_false_of_table, hf] at hlazy
  | eq | distinct | extract | zeroExtend | signExtend | concat | not => cases hlazy

/-- An operator whose arguments have values has the value that it stands for. -/
theorem eval_of_args {env : Assignment} {o : Op} {indices : List Nat} {args : List Term}
    {ms : List Meaning} {m : Meaning} (ho : o.Denotes indices ms m) (hlen : args.length = ms.length)
    (hargs : ∀ p ∈ args.zip ms, eval env p.1 = .ok p.2.value ∧ p.2.isData) :
    eval env (.apply (.op o indices) args m.sort.width) = .ok m.value ∧ m.isData := by
  by_cases hlazy : isLazy o = true
  · exact eval_lazy _ ho hlazy hlen hargs
  · have hstrict : isLazy o = false := by simpa using hlazy
    have hdata : ∀ n ∈ ms, n.isData := by
      intro n hn
      obtain ⟨i, hi, rfl⟩ := List.getElem_of_mem hn
      have hzip : (args[i], ms[i]) ∈ args.zip ms :=
        List.mem_iff_getElem.mpr ⟨i, by simp [hlen, hi], List.getElem_zip⟩
      exact (hargs _ hzip).2
    obtain ⟨hvalue, hm⟩ := strictValue_of_denotes ho hstrict hdata
    refine ⟨?_, hm⟩
    rw [eval_op env hstrict indices _ (evalArgs_eq hlen fun p hp => (hargs p hp).1), hvalue]

/-- Evaluation finds the meaning of a term without arrays, if the interpretation of its symbols is
what the assignment says. -/
theorem Denotes.eval_eq {I : Interpretation} {env : Assignment} {t : Term} {m : Meaning}
    (h : t.Denotes I m) (hfree : t.ArrayFree)
    (henv : ∀ v, t.Mentions v → ∃ n, env v.name = some n ∧ I.word v = BitVec.ofNat v.width n) :
    eval env t = .ok m.value ∧ m.isData := by
  induction h with
  | truth b => exact ⟨rfl, rfl⟩
  | literal n w => exact ⟨congrArg Except.ok (ofNat_eq_ofBitVec n w), rfl⟩
  | input v =>
      obtain ⟨n, hn, hv⟩ := henv v (.inl (mem_parts_self _))
      simp only [eval, symbolValue, hn, value, hv, ofNat_eq_ofBitVec, isData, and_self]
  | cell v l =>
      obtain ⟨n, hn, hv⟩ := henv v (.inr ⟨l, mem_parts_self _⟩)
      simp only [eval, symbolValue, hn, value, hv, ofNat_eq_ofBitVec, isData, and_self]
  | array v => cases hfree.root
  | select l ha hj => cases hfree.root
  | store l ha hj he => cases hfree.root
  | apply hlen hargs ho ih =>
      refine eval_of_args ho hlen fun p hp => ?_
      have hmem := (List.of_mem_zip hp).1
      exact ih p hp (hfree.arg hmem) fun v hv => henv v (hv.of_arg hmem)

/-- The width of a term is that of its sort. -/
theorem HasSort.width_eq {t : Term} {s : TermSort} (h : t.HasSort s) : t.width = s.width := by
  cases h <;> rfl

/-- Evaluation refines the standard meaning: a well-sorted term without arrays has exactly one
meaning under the assigned numbers, read modulo the widths of their symbols, and evaluation succeeds
with it. It is a boolean for a boolean term, and otherwise a number below `2 ^ w` of width `w`,
which is the width of the term. -/
theorem eval_refines_meaning {t : Term} {s : TermSort} (ht : t.HasSort s) (hfree : t.ArrayFree)
    {env : Assignment} (henv : ∀ v, t.Mentions v → (env v.name).isSome) :
    ∃ m, t.Denotes env.interpretation m ∧ (∀ m', t.Denotes env.interpretation m' → m' = m) ∧
      ((∃ b, s = .bool ∧ m = .bool b ∧ eval env t = .ok (.bool b)) ∨
        ∃ w, ∃ x : BitVec w, s = .bits w ∧ m = .bits w x ∧ eval env t = .ok (.bits x.toNat w) ∧
          x.toNat < 2 ^ w ∧ t.width = w) := by
  have hread : ∀ v, t.Mentions v → ∃ n, env v.name = some n ∧
      env.interpretation.word v = BitVec.ofNat v.width n := by
    intro v hv
    obtain ⟨n, hn⟩ := Option.isSome_iff_exists.mp (henv v hv)
    exact ⟨n, hn, by simp [Assignment.interpretation, hn]⟩
  obtain ⟨m, hm, rfl⟩ := ht.denotes env.interpretation
  obtain ⟨heval, hdata⟩ := hm.eval_eq hfree hread
  refine ⟨m, hm, ?_, ?_⟩
  · intro m' hm'
    obtain ⟨heval', hdata'⟩ := hm'.eval_eq hfree hread
    rw [heval] at heval'
    exact value_inj hdata' hdata (Except.ok.inj heval').symm
  · cases m with
    | bool b => exact .inl ⟨b, rfl, rfl, heval⟩
    | bits w x => exact .inr ⟨w, x, rfl, rfl, heval, x.isLt, ht.width_eq⟩
    | array i w f => cases hdata

/-- The most negative number of width 8, divided by -1, is itself again. -/
theorem eval_refines_meaning_overflow :
    let x : Variable := ⟨"x", 8, .input⟩
    let t : Term := .apply (.op .sdiv []) [.input x, .literal 255 8] 8
    let env : Assignment := fun _ => some 128
    t.HasSort (.bits 8) ∧ t.ArrayFree ∧ (∀ v, t.Mentions v → (env v.name).isSome) ∧
      ∃ m, t.Denotes env.interpretation m ∧ (∀ m', t.Denotes env.interpretation m' → m' = m) ∧
        m = .bits 8 128#8 ∧ eval env t = .ok (.bits 128 8) := by
  intro x t env
  have hsort : t.HasSort (.bits 8) := by
    have hlen : [Term.input x, .literal 255 8].length = [TermSort.bits 8, .bits 8].length := rfl
    refine .apply hlen ?_ (.binary 8 rfl)
    intro p hp
    simp only [List.zip_cons_cons, List.zip_nil_right, List.mem_cons, List.not_mem_nil,
      or_false] at hp
    rcases hp with rfl | rfl
    · exact .input (v := x) (by decide) (by decide)
    · exact .literal 255 (by decide) (by decide)
  have hfree : t.ArrayFree := by decide
  have henv : ∀ v, t.Mentions v → (env v.name).isSome := fun _ _ => rfl
  have hres : eval env t = .ok (.bits 128 8) := by decide +kernel
  refine ⟨hsort, hfree, henv, ?_⟩
  obtain ⟨m, hm, huniq, ⟨b, hs, -, -⟩ | ⟨w, y, hs, rfl, heval, -, -⟩⟩ :=
    eval_refines_meaning hsort hfree henv
  · cases hs
  · cases hs
    have hy : y.toNat = 128 := by
      rw [hres] at heval
      simpa using heval.symm
    refine ⟨_, hm, huniq, ?_, hres⟩
    rw [BitVec.eq_of_toNat_eq (x := y) (y := 128#8) hy]

end Term

/-! ### Constraints -/

namespace Constraint

/-- A constraint holds if its term evaluates to true, and fails if to false. -/
theorem holds_of_eval {env : Assignment} {c : Constraint} {b : Bool}
    (h : c.term.eval env = .ok (.bool b)) : c.holds env = .ok b := by
  simp only [holds, h]
  rfl

/-- The first constraint fails and settles the result, or it holds and leaves it to the others. -/
theorem allHold_cons {env : Assignment} {c : Constraint} {cs : List Constraint} {b : Bool}
    (h : allHold env (c :: cs) = .ok b) :
    c.holds env = .ok false ∧ b = false ∨ c.holds env = .ok true ∧ allHold env cs = .ok b := by
  rw [allHold] at h
  cases hc : c.holds env with
  | error e =>
      rw [hc] at h
      cases h
  | ok x =>
      rw [hc] at h
      cases x with
      | false =>
          cases h
          exact .inl ⟨rfl, rfl⟩
      | true => exact .inr ⟨rfl, h⟩

/-- If all constraints hold together, each of them holds. -/
theorem holds_of_allHold {env : Assignment} {cs : List Constraint}
    (h : allHold env cs = .ok true) : ∀ c ∈ cs, c.holds env = .ok true := by
  induction cs with
  | nil => simp
  | cons c cs ih =>
      rcases allHold_cons h with ⟨-, hfalse⟩ | ⟨hc, hrest⟩
      · cases hfalse
      · exact List.forall_mem_cons.mpr ⟨hc, ih hrest⟩

/-- If they do not hold together, one of them fails. -/
theorem exists_fails_of_allHold {env : Assignment} {cs : List Constraint}
    (h : allHold env cs = .ok false) : ∃ c ∈ cs, c.holds env = .ok false := by
  induction cs with
  | nil => cases h
  | cons c cs ih =>
      rcases allHold_cons h with ⟨hc, -⟩ | ⟨-, hrest⟩
      · exact ⟨c, List.mem_cons_self, hc⟩
      · obtain ⟨d, hd, hfails⟩ := ih hrest
        exact ⟨d, List.mem_cons_of_mem _ hd, hfails⟩

end Constraint

end Pathwise
