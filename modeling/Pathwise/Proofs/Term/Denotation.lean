import Mathlib.Algebra.GroupWithZero.Nat
import Mathlib.Data.List.Chain
import Pathwise.Term.Eval

/-!
# The standard meaning of terms

What terms stand for in SMT-LIB: sorts, ranks of operators, and meanings of terms over fixed-width
bit-vectors. Nothing here mentions the evaluator.

* **Sorts** (`TermSort`): booleans, bit-vectors of widths from 1 to `maxWidth`, arrays.
* **Ranks** (`Op.HasRank`): which sorts of arguments an operator takes, and the sort of its result.
  `Term.HasSort` extends them to terms; a term that has a sort is well-sorted.
* **Meanings** (`Op.Denotes`, `Term.Denotes`): booleans, bit-vectors of a width, total functions for
  arrays. The operators of one shape share a rule, and a table says which operation of bit-vectors
  each of them is (`order?`, `binary?`, `folded?`, `unary?`).

Each well-sorted term has a meaning of its sort (`Term.HasSort.denotes`).
-/

namespace Pathwise

/-- The sorts of terms. -/
inductive TermSort where
  | bool
  | bits (width : Nat)
  | array (index element : Nat)
  deriving Repr, DecidableEq

/-- The width that a term of a sort has; booleans and arrays have width 0. -/
def TermSort.width : TermSort → Nat
  | bits w => w
  | _ => 0

/-- What a term stands for. -/
inductive Meaning where
  | bool (value : Bool)
  | bits (width : Nat) (value : BitVec width)
  | array (index element : Nat) (value : BitVec index → BitVec element)

namespace Meaning

/-- The sort that a meaning belongs to. -/
def sort : Meaning → TermSort
  | bool _ => .bool
  | bits w _ => .bits w
  | array i w _ => .array i w

/-- The bit-vectors of one width, as meanings. -/
theorem eq_bits_of_sort {m : Meaning} {w : Nat} (h : m.sort = .bits w) : ∃ x, m = .bits w x := by
  cases m with
  | bits v x => cases h; exact ⟨x, rfl⟩
  | bool b => cases h
  | array i v f => cases h

/-- What has the sort of truth values is one. -/
theorem eq_bool_of_sort {m : Meaning} (h : m.sort = .bool) : ∃ b, m = .bool b := by
  cases m with
  | bool b => exact ⟨b, rfl⟩
  | bits v x => cases h
  | array i v f => cases h

/-- What has the sort of an array is one. -/
theorem eq_array_of_sort {m : Meaning} {i w : Nat} (h : m.sort = .array i w) :
    ∃ f, m = .array i w f := by
  cases m with
  | array j v f => cases h; exact ⟨f, rfl⟩
  | bool b => cases h
  | bits v x => cases h

/-- Meanings of given sorts for some things, one by one, make a list of meanings. -/
theorem exists_list {α : Type} {R : α → Meaning → Prop} {as : List α} {ss : List TermSort}
    (hlen : as.length = ss.length) (h : ∀ p ∈ as.zip ss, ∃ m, R p.1 m ∧ m.sort = p.2) :
    ∃ ms : List Meaning, as.length = ms.length ∧ (∀ p ∈ as.zip ms, R p.1 p.2) ∧
      ms.map sort = ss := by
  induction as generalizing ss with
  | nil =>
      obtain rfl : ss = [] := List.length_eq_zero_iff.mp hlen.symm
      exact ⟨[], rfl, by simp, rfl⟩
  | cons a as ih =>
      obtain _ | ⟨s, ss⟩ := ss
      · simp at hlen
      obtain ⟨m, hm, hs⟩ := h (a, s) List.mem_cons_self
      obtain ⟨ms, hl, hms, hss⟩ := ih (by simpa using hlen) fun p hp =>
        h p (List.mem_cons_of_mem _ hp)
      refine ⟨m :: ms, by simp [hl], ?_, by simp [hs, hss]⟩
      intro p hp
      rcases List.mem_cons.mp hp with rfl | hp
      · exact hm
      · exact hms p hp

/-- Concatenation, of bit-vectors of any two widths. -/
def append : Meaning → Meaning → Meaning
  | bits v x, bits w y => bits (v + w) (x ++ y)
  | m, _ => m

end Meaning

namespace Op

/-! ### Tables of operations -/

/-- The orders of bit-vectors. -/
def order? : Op → Option ((w : Nat) → BitVec w → BitVec w → Bool)
  | ult => some fun _ x y => x.ult y
  | ule => some fun _ x y => x.ule y
  | ugt => some fun _ x y => y.ult x
  | uge => some fun _ x y => y.ule x
  | slt => some fun _ x y => x.slt y
  | sle => some fun _ x y => x.sle y
  | sgt => some fun _ x y => y.slt x
  | sge => some fun _ x y => y.sle x
  | _ => none

/-- The operations of two bit-vectors of one width. -/
def binary? : Op → Option ((w : Nat) → BitVec w → BitVec w → BitVec w)
  | sub => some fun _ x y => x - y
  | udiv => some fun _ x y => x.smtUDiv y
  | sdiv => some fun _ x y => x.smtSDiv y
  | urem => some fun _ x y => x % y
  | srem => some fun _ x y => x.srem y
  | shl => some fun _ x y => x <<< y
  | lshr => some fun _ x y => x >>> y
  | ashr => some fun _ x y => x.sshiftRight' y
  | _ => none

/-- The operations of two bit-vectors that are written with any number of operands, and then
associate to the left. -/
def folded? : Op → Option ((w : Nat) → BitVec w → BitVec w → BitVec w)
  | add => some fun _ x y => x + y
  | mul => some fun _ x y => x * y
  | bvAnd => some fun _ x y => x &&& y
  | bvOr => some fun _ x y => x ||| y
  | bvXor => some fun _ x y => x ^^^ y
  | _ => none

/-- The operations of one bit-vector. -/
def unary? : Op → Option ((w : Nat) → BitVec w → BitVec w)
  | bvNot => some fun _ x => ~~~x
  | bvNeg => some fun _ x => -x
  | _ => none

/-! ### Ranks and meanings -/

/-- The sorts that an operator with some indices takes, and the sort of its result. -/
inductive HasRank : Op → List Nat → List TermSort → TermSort → Prop
  | eq (s : TermSort) (n : Nat) : HasRank .eq [] (List.replicate (n + 2) s) .bool
  | distinct (s : TermSort) (n : Nat) : HasRank .distinct [] (List.replicate (n + 2) s) .bool
  | order {o : Op} (w : Nat) (ho : o.order?.isSome) : HasRank o [] [.bits w, .bits w] .bool
  | binary {o : Op} (w : Nat) (ho : o.binary?.isSome) :
      HasRank o [] [.bits w, .bits w] (.bits w)
  | folded {o : Op} (w n : Nat) (ho : o.folded?.isSome) :
      HasRank o [] (List.replicate (n + 2) (.bits w)) (.bits w)
  | unary {o : Op} (w : Nat) (ho : o.unary?.isSome) : HasRank o [] [.bits w] (.bits w)
  | extract {w hi lo : Nat} (hlo : lo ≤ hi) (hhi : hi < w) :
      HasRank .extract [hi, lo] [.bits w] (.bits (hi - lo + 1))
  | zeroExtend {w n : Nat} (hw : w + n ≤ maxWidth) :
      HasRank .zeroExtend [n] [.bits w] (.bits (w + n))
  | signExtend {w n : Nat} (hw : w + n ≤ maxWidth) :
      HasRank .signExtend [n] [.bits w] (.bits (w + n))
  | concat {ws : List Nat} (hlen : 2 ≤ ws.length) (hw : ws.sum ≤ maxWidth) :
      HasRank .concat [] (ws.map .bits) (.bits ws.sum)
  | not : HasRank .not [] [.bool] .bool
  | and (n : Nat) : HasRank .and [] (List.replicate (n + 1) .bool) .bool
  | or (n : Nat) : HasRank .or [] (List.replicate (n + 1) .bool) .bool
  | implies : HasRank .implies [] [.bool, .bool] .bool
  | ite (s : TermSort) : HasRank .ite [] [.bool, s, s] s

/-- What an operator with some indices makes of what its arguments stand for. Equality is chained,
and being distinct is meant pairwise. -/
inductive Denotes : Op → List Nat → List Meaning → Meaning → Prop
  | eq {ms : List Meaning} {s : TermSort} {b : Bool} (hs : ∀ m ∈ ms, m.sort = s)
      (hb : b = true ↔ ms.IsChain (· = ·)) : Denotes .eq [] ms (.bool b)
  | distinct {ms : List Meaning} {s : TermSort} {b : Bool} (hs : ∀ m ∈ ms, m.sort = s)
      (hb : b = true ↔ ms.Pairwise (· ≠ ·)) : Denotes .distinct [] ms (.bool b)
  | order {o : Op} {f : (w : Nat) → BitVec w → BitVec w → Bool} (ho : o.order? = some f) {w : Nat}
      (x y : BitVec w) : Denotes o [] [.bits w x, .bits w y] (.bool (f w x y))
  | binary {o : Op} {f : (w : Nat) → BitVec w → BitVec w → BitVec w} (ho : o.binary? = some f)
      {w : Nat} (x y : BitVec w) : Denotes o [] [.bits w x, .bits w y] (.bits w (f w x y))
  | folded {o : Op} {f : (w : Nat) → BitVec w → BitVec w → BitVec w} (ho : o.folded? = some f)
      {w : Nat} (x : BitVec w) (ys : List (BitVec w)) :
      Denotes o [] (.bits w x :: ys.map (.bits w)) (.bits w (ys.foldl (f w) x))
  | unary {o : Op} {f : (w : Nat) → BitVec w → BitVec w} (ho : o.unary? = some f) {w : Nat}
      (x : BitVec w) : Denotes o [] [.bits w x] (.bits w (f w x))
  | extract {w : Nat} (x : BitVec w) (hi lo : Nat) :
      Denotes .extract [hi, lo] [.bits w x] (.bits (hi - lo + 1) (x.extractLsb hi lo))
  | zeroExtend {w : Nat} (x : BitVec w) (n : Nat) :
      Denotes .zeroExtend [n] [.bits w x] (.bits (w + n) (x.zeroExtend (w + n)))
  | signExtend {w : Nat} (x : BitVec w) (n : Nat) :
      Denotes .signExtend [n] [.bits w x] (.bits (w + n) (x.signExtend (w + n)))
  | concat {m : Meaning} {ms : List Meaning} (hs : ∀ n ∈ m :: ms, ∃ w, n.sort = .bits w) :
      Denotes .concat [] (m :: ms) (ms.foldl Meaning.append m)
  | not (b : Bool) : Denotes .not [] [.bool b] (.bool !b)
  | and (bs : List Bool) : Denotes .and [] (bs.map .bool) (.bool (bs.all id))
  | or (bs : List Bool) : Denotes .or [] (bs.map .bool) (.bool (bs.any id))
  | implies (a b : Bool) : Denotes .implies [] [.bool a, .bool b] (.bool (!a || b))
  | ite (b : Bool) {m n : Meaning} (hs : m.sort = n.sort) :
      Denotes .ite [] [.bool b, m, n] (if b then m else n)

end Op

/-- What the symbols stand for: words of their width, and total functions for arrays. -/
structure Interpretation where
  word (v : Variable) : BitVec v.width
  array (v : Variable) : BitVec v.role.indexWidth → BitVec v.width

/-- The interpretation that reads assigned numbers modulo the width of their symbols. Arrays are
zero everywhere. -/
def Assignment.interpretation (env : Assignment) : Interpretation where
  word v := BitVec.ofNat v.width ((env v.name).getD 0)
  array _ _ := 0

namespace Term

/-- A term has a sort. The width that an application carries is that of its sort. -/
inductive HasSort : Term → TermSort → Prop
  | truth (b : Bool) : HasSort (.truth b) .bool
  | literal (n : Nat) {w : Nat} (hpos : 0 < w) (hmax : w ≤ maxWidth) :
      HasSort (.literal n w) (.bits w)
  | input {v : Variable} (hpos : 0 < v.width) (hmax : v.width ≤ maxWidth) :
      HasSort (.input v) (.bits v.width)
  | cell {v : Variable} (l : Location) (hpos : 0 < v.width) (hmax : v.width ≤ maxWidth) :
      HasSort (.cell v l) (.bits v.width)
  | array {v : Variable} (hpos : 0 < v.width ∧ 0 < v.role.indexWidth)
      (hmax : v.width ≤ maxWidth ∧ v.role.indexWidth ≤ maxWidth) :
      HasSort (.array v) (.array v.role.indexWidth v.width)
  | select {a j : Term} {i w : Nat} (l : Location) (ha : HasSort a (.array i w))
      (hj : HasSort j (.bits i)) : HasSort (.apply (.access .read l) [a, j] w) (.bits w)
  | store {a j e : Term} {i w : Nat} (l : Location) (ha : HasSort a (.array i w))
      (hj : HasSort j (.bits i)) (he : HasSort e (.bits w)) :
      HasSort (.apply (.access .write l) [a, j, e] 0) (.array i w)
  | apply {o : Op} {indices : List Nat} {args : List Term} {ss : List TermSort} {s : TermSort}
      (hlen : args.length = ss.length) (hargs : ∀ p ∈ args.zip ss, HasSort p.1 p.2)
      (ho : o.HasRank indices ss s) : HasSort (.apply (.op o indices) args s.width) s

/-- A term stands for a meaning, if symbols stand for what an interpretation says. -/
inductive Denotes (I : Interpretation) : Term → Meaning → Prop
  | truth (b : Bool) : Denotes I (.truth b) (.bool b)
  | literal (n w : Nat) : Denotes I (.literal n w) (.bits w (BitVec.ofNat w n))
  | input (v : Variable) : Denotes I (.input v) (.bits v.width (I.word v))
  | cell (v : Variable) (l : Location) : Denotes I (.cell v l) (.bits v.width (I.word v))
  | array (v : Variable) :
      Denotes I (.array v) (.array v.role.indexWidth v.width (I.array v))
  | select {a j : Term} {i w : Nat} {f : BitVec i → BitVec w} {x : BitVec i} (l : Location)
      (ha : Denotes I a (.array i w f)) (hj : Denotes I j (.bits i x)) :
      Denotes I (.apply (.access .read l) [a, j] w) (.bits w (f x))
  | store {a j e : Term} {i w : Nat} {f : BitVec i → BitVec w} {x : BitVec i} {y : BitVec w}
      (l : Location) (ha : Denotes I a (.array i w f)) (hj : Denotes I j (.bits i x))
      (he : Denotes I e (.bits w y)) :
      Denotes I (.apply (.access .write l) [a, j, e] 0)
        (.array i w fun z => if z = x then y else f z)
  | apply {o : Op} {indices : List Nat} {args : List Term} {ms : List Meaning} {m : Meaning}
      (hlen : args.length = ms.length) (hargs : ∀ p ∈ args.zip ms, Denotes I p.1 p.2)
      (ho : o.Denotes indices ms m) : Denotes I (.apply (.op o indices) args m.sort.width) m

end Term

/-! ### Well-sorted terms have meanings -/

namespace Op

open Meaning

/-- Meanings that all have one bit-vector sort are bit-vectors of one width. -/
theorem exists_map_bits {w : Nat} :
    (ms : List Meaning) → (∀ m ∈ ms, m.sort = .bits w) →
      ∃ xs : List (BitVec w), ms = xs.map (.bits w)
  | [], _ => ⟨[], rfl⟩
  | m :: ms, h => by
      obtain ⟨x, rfl⟩ := eq_bits_of_sort (h m List.mem_cons_self)
      obtain ⟨xs, rfl⟩ := exists_map_bits ms fun n hn => h n (List.mem_cons_of_mem _ hn)
      exact ⟨x :: xs, rfl⟩

/-- Meanings that are truth values, as a list of these. -/
theorem exists_map_bool :
    (ms : List Meaning) → (∀ m ∈ ms, m.sort = .bool) →
      ∃ bs : List Bool, ms = bs.map .bool
  | [], _ => ⟨[], rfl⟩
  | m :: ms, h => by
      obtain ⟨b, rfl⟩ := eq_bool_of_sort (h m List.mem_cons_self)
      obtain ⟨bs, rfl⟩ := exists_map_bool ms fun n hn => h n (List.mem_cons_of_mem _ hn)
      exact ⟨b :: bs, rfl⟩

/-- Meanings with a list of equal sorts have that sort each. -/
theorem sort_eq_of_map_eq_replicate {ms : List Meaning} {n : Nat} {s : TermSort}
    (h : ms.map sort = List.replicate n s) : ∀ m ∈ ms, m.sort = s := by
  intro m hm
  have hs : m.sort ∈ List.replicate n s := h ▸ List.mem_map_of_mem hm
  exact List.eq_of_mem_replicate hs

/-- Widths are added when bit-vectors are put together. -/
theorem sort_append {m n : Meaning} {v w : Nat} (hm : m.sort = .bits v) (hn : n.sort = .bits w) :
    (m.append n).sort = .bits (v + w) := by
  obtain ⟨x, rfl⟩ := eq_bits_of_sort hm
  obtain ⟨y, rfl⟩ := eq_bits_of_sort hn
  rfl

/-- The width of a concatenation is the sum of the widths. -/
theorem sort_foldl_append (ms : List Meaning) {m : Meaning} {v : Nat} {ws : List Nat}
    (hm : m.sort = .bits v) (hms : ms.map sort = ws.map .bits) :
    (ms.foldl append m).sort = .bits (v + ws.sum) := by
  induction ms generalizing m v ws with
  | nil =>
      obtain rfl : ws = [] := by simpa using hms.symm
      simpa using hm
  | cons n ms ih =>
      obtain ⟨w, ws, rfl⟩ : ∃ w ws', ws = w :: ws' := by
        cases ws with
        | nil => simp at hms
        | cons w ws => exact ⟨w, ws, rfl⟩
      simp only [List.map_cons, List.cons.injEq] at hms
      rw [List.foldl_cons, ih (sort_append hm hms.1) hms.2, List.sum_cons, Nat.add_assoc]

/-- The meaning of a single bit-vector. -/
theorem eq_single_of_sort {ms : List Meaning} {w : Nat} (h : ms.map sort = [.bits w]) :
    ∃ x, ms = [.bits w x] := by
  simp only [List.map_eq_cons_iff, List.map_eq_nil_iff] at h
  obtain ⟨m, _, rfl, hm, rfl⟩ := h
  obtain ⟨x, rfl⟩ := eq_bits_of_sort hm
  exact ⟨x, rfl⟩

/-- The meanings of two bit-vectors of one width. -/
theorem eq_pair_of_sorts {ms : List Meaning} {w : Nat} (h : ms.map sort = [.bits w, .bits w]) :
    ∃ x y, ms = [.bits w x, .bits w y] := by
  simp only [List.map_eq_cons_iff, List.map_eq_nil_iff] at h
  obtain ⟨m, _, rfl, hm, n, _, rfl, hn, rfl⟩ := h
  obtain ⟨x, rfl⟩ := eq_bits_of_sort hm
  obtain ⟨y, rfl⟩ := eq_bits_of_sort hn
  exact ⟨x, y, rfl⟩

/-- Arguments of the right sorts give an operator a meaning of the right sort. -/
theorem HasRank.denotes {o : Op} {indices : List Nat} {ss : List TermSort} {s : TermSort}
    (h : o.HasRank indices ss s) {ms : List Meaning} (hms : ms.map sort = ss) :
    ∃ m, o.Denotes indices ms m ∧ m.sort = s := by
  classical
  cases h with
  | eq s n => exact ⟨_, .eq (sort_eq_of_map_eq_replicate hms) decide_eq_true_iff, rfl⟩
  | distinct s n => exact ⟨_, .distinct (sort_eq_of_map_eq_replicate hms) decide_eq_true_iff, rfl⟩
  | order w ho =>
      obtain ⟨f, hf⟩ := Option.isSome_iff_exists.mp ho
      obtain ⟨x, y, rfl⟩ := eq_pair_of_sorts hms
      exact ⟨_, .order hf x y, rfl⟩
  | binary w ho =>
      obtain ⟨f, hf⟩ := Option.isSome_iff_exists.mp ho
      obtain ⟨x, y, rfl⟩ := eq_pair_of_sorts hms
      exact ⟨_, .binary hf x y, rfl⟩
  | folded w n ho =>
      obtain ⟨f, hf⟩ := Option.isSome_iff_exists.mp ho
      obtain ⟨xs, rfl⟩ := exists_map_bits ms (sort_eq_of_map_eq_replicate hms)
      cases xs with
      | nil => simp [List.replicate] at hms
      | cons x xs => exact ⟨_, .folded hf x xs, rfl⟩
  | unary w ho =>
      obtain ⟨f, hf⟩ := Option.isSome_iff_exists.mp ho
      obtain ⟨x, rfl⟩ := eq_single_of_sort hms
      exact ⟨_, .unary hf x, rfl⟩
  | extract hlo hhi =>
      obtain ⟨x, rfl⟩ := eq_single_of_sort hms
      exact ⟨_, .extract x _ _, rfl⟩
  | zeroExtend hw =>
      obtain ⟨x, rfl⟩ := eq_single_of_sort hms
      exact ⟨_, .zeroExtend x _, rfl⟩
  | signExtend hw =>
      obtain ⟨x, rfl⟩ := eq_single_of_sort hms
      exact ⟨_, .signExtend x _, rfl⟩
  | concat hlen hw =>
      rename_i ws
      obtain _ | ⟨w, ws⟩ := ws
      · simp at hlen
      · obtain ⟨m, ms, rfl, hm, hms'⟩ := List.map_eq_cons_iff.mp hms
        have hbits : ∀ n ∈ m :: ms, ∃ v, n.sort = .bits v := by
          intro n hn
          obtain ⟨v, -, hv⟩ := List.mem_map.mp (hms ▸ List.mem_map_of_mem hn)
          exact ⟨v, hv.symm⟩
        exact ⟨_, .concat hbits, sort_foldl_append ms hm hms'⟩
  | not =>
      obtain ⟨m, _, rfl, hm, hnil⟩ := List.map_eq_cons_iff.mp hms
      obtain rfl := List.map_eq_nil_iff.mp hnil
      obtain ⟨b, rfl⟩ := eq_bool_of_sort hm
      exact ⟨_, .not b, rfl⟩
  | and n =>
      obtain ⟨bs, rfl⟩ := exists_map_bool ms (sort_eq_of_map_eq_replicate hms)
      exact ⟨_, .and bs, rfl⟩
  | or n =>
      obtain ⟨bs, rfl⟩ := exists_map_bool ms (sort_eq_of_map_eq_replicate hms)
      exact ⟨_, .or bs, rfl⟩
  | implies =>
      simp only [List.map_eq_cons_iff, List.map_eq_nil_iff] at hms
      obtain ⟨m, _, rfl, hm, n, _, rfl, hn, rfl⟩ := hms
      obtain ⟨a, rfl⟩ := eq_bool_of_sort hm
      obtain ⟨b, rfl⟩ := eq_bool_of_sort hn
      exact ⟨_, .implies a b, rfl⟩
  | ite s =>
      simp only [List.map_eq_cons_iff, List.map_eq_nil_iff] at hms
      obtain ⟨c, _, rfl, hc, m, _, rfl, hm, n, _, rfl, hn, rfl⟩ := hms
      obtain ⟨b, rfl⟩ := eq_bool_of_sort hc
      refine ⟨_, .ite b (hm.trans hn.symm), ?_⟩
      cases b
      · exact hn
      · exact hm

end Op

namespace Term

/-- Each well-sorted term has a meaning of its sort. -/
theorem HasSort.denotes {t : Term} {s : TermSort} (h : t.HasSort s) (I : Interpretation) :
    ∃ m, t.Denotes I m ∧ m.sort = s := by
  induction h with
  | truth b => exact ⟨_, .truth b, rfl⟩
  | literal n hpos hmax => exact ⟨_, .literal n _, rfl⟩
  | input hpos hmax => exact ⟨_, .input _, rfl⟩
  | cell l hpos hmax => exact ⟨_, .cell _ l, rfl⟩
  | array hpos hmax => exact ⟨_, .array _, rfl⟩
  | select l ha hj iha ihj =>
      obtain ⟨m, hm, hs⟩ := iha
      obtain ⟨n, hn, hsn⟩ := ihj
      obtain ⟨x, rfl⟩ := Meaning.eq_bits_of_sort hsn
      obtain ⟨f, rfl⟩ := Meaning.eq_array_of_sort hs
      exact ⟨_, .select l hm hn, rfl⟩
  | store l ha hj he iha ihj ihe =>
      obtain ⟨m, hm, hs⟩ := iha
      obtain ⟨n, hn, hsn⟩ := ihj
      obtain ⟨k, hk, hsk⟩ := ihe
      obtain ⟨x, rfl⟩ := Meaning.eq_bits_of_sort hsn
      obtain ⟨y, rfl⟩ := Meaning.eq_bits_of_sort hsk
      obtain ⟨f, rfl⟩ := Meaning.eq_array_of_sort hs
      exact ⟨_, .store l hm hn hk, rfl⟩
  | apply hlen hargs ho ih =>
      obtain ⟨ms, hl, hms, hss⟩ := Meaning.exists_list (R := Denotes I) hlen ih
      obtain ⟨m, hm, rfl⟩ := ho.denotes hss
      exact ⟨m, .apply hl hms hm, rfl⟩

end Term

end Pathwise
