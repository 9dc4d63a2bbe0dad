import Pathwise.Domain.Bounds
import Pathwise.Proofs.Term.Refinement

/-!
# Comparisons are comparisons of integers

A comparison of two bit-vectors of one width reads both as integers, signed or unsigned, and
compares these (`eval_compare`). What is known about the order of integers then carries over to
terms: exchanging the operands (`relates_flip`) and denying the comparison (`relates_under`).
-/

namespace Pathwise

namespace Op

/-- What a comparison says of two integers. -/
def Relates (o : Op) (x y : Int) : Prop :=
  match o with
  | .ult | .slt => x < y
  | .ule | .sle => x ≤ y
  | .ugt | .sgt => y < x
  | .uge | .sge => y ≤ x
  | .eq => x = y
  | .distinct => x ≠ y
  | _ => True

/-- The integer as which a comparison reads a bit-vector. -/
def reading (o : Op) {w : Nat} (x : BitVec w) : Int :=
  if o.isSigned then x.toInt else x.toNat

/-- Different bit-vectors are read as different integers. -/
theorem reading_inj {o : Op} {w : Nat} {x y : BitVec w} : o.reading x = o.reading y ↔ x = y := by
  unfold reading
  split
  · exact BitVec.toInt_inj
  · exact Int.natCast_inj.trans BitVec.toNat_inj

/-- A comparison asks for equality or for an order. -/
theorem eq_or_order {o : Op} (ho : o.isCompare) :
    o = .eq ∨ o = .distinct ∨ ∃ f, o.order? = some f := by
  cases o <;> simp [isCompare, family, order?] at ho ⊢

/-- The comparison that a number of negations leaves: an odd number denies it. -/
def under (o : Op) (negated : Bool) : Op :=
  if negated then o.negate?.getD o else o

/-- Exchanging the operands turns a comparison around. -/
theorem relates_flip (o : Op) (x y : Int) : o.flip.Relates y x ↔ o.Relates x y := by
  cases o <;> simp only [flip, Relates, eq_comm, ne_eq]

/-- An odd number of negations denies a comparison. -/
theorem relates_under {o : Op} (ho : o.isCompare) (negated : Bool) {x y : Int} {r : Bool}
    (hr : r = true ↔ o.Relates x y) : (o.under negated).Relates x y ↔ r ≠ negated := by
  cases negated with
  | false =>
      rw [Bool.ne_false_iff, hr]
      rfl
  | true =>
      rw [ne_eq, hr]
      cases o <;> simp only [isCompare, family, beq_iff_eq, reduceCtorEq] at ho <;>
        simp only [under, negate?, if_true, Option.getD_some, Relates] <;> omega

/-- Exchanging the operands does not change how they are read. -/
@[simp] theorem reading_flip (o : Op) {w : Nat} (x : BitVec w) :
    o.flip.reading x = o.reading x := by
  cases o <;> rfl

/-- Denying a comparison does not change how its operands are read. -/
@[simp] theorem reading_under (o : Op) (negated : Bool) {w : Nat} (x : BitVec w) :
    (o.under negated).reading x = o.reading x := by
  cases negated <;> cases o <;> rfl

/-- Integers on the same side of a third one compare alike with it. -/
theorem relates_congr {x y c : Int} (hlt : x < c ↔ y < c) (heq : x = c ↔ y = c) (o : Op) :
    (o.Relates x c ↔ o.Relates y c) ∧ (o.Relates c x ↔ o.Relates c y) := by
  cases o <;> simp only [Relates, and_self] <;> omega

/-- Where the order is signed or only equality matters, the signed readings decide. -/
theorem relates_reading_iff {o : Op} (ho : o.isSigned ∨ o = .eq ∨ o = .distinct) {w : Nat}
    (x y : BitVec w) :
    o.Relates (o.reading x) (o.reading y) ↔ o.Relates x.toInt y.toInt := by
  rcases ho with ho | rfl | rfl
  · simp only [reading, if_pos ho]
  · simp only [Relates, reading_inj, BitVec.toInt_inj]
  · simp only [Relates, ne_eq, reading_inj, BitVec.toInt_inj]

end Op

/-- The numbers of a width are twice as many as those without a sign. -/
theorem two_pow_eq_half {w : Nat} (hw : 0 < w) : 2 ^ w = 2 * 2 ^ (w - 1) := by
  obtain ⟨k, rfl⟩ : ∃ k, w = k + 1 := ⟨w - 1, by omega⟩
  rw [Nat.pow_succ, Nat.mul_comm, Nat.add_sub_cancel]

/-- Below the sign boundary a number is its own signed value. -/
theorem signedValue_of_lt {w x : Nat} (h : x < 2 ^ (w - 1)) : signedValue x w = x :=
  if_pos h

/-- From the sign boundary on, the number of all values is taken off. -/
theorem signedValue_of_le {w x : Nat} (h : 2 ^ (w - 1) ≤ x) :
    signedValue x w = (x : Int) - (2 ^ w : Nat) := by
  rw [signedValue, if_neg (by omega), Int.natCast_pow]
  rfl

/-- A number is on one side of the sign boundary. -/
theorem signedValue_cases (x w : Nat) :
    (x < 2 ^ (w - 1) ∧ signedValue x w = x) ∨
      (2 ^ (w - 1) ≤ x ∧ signedValue x w = (x : Int) - (2 ^ w : Nat)) := by
  rcases Nat.lt_or_ge x (2 ^ (w - 1)) with h | h
  · exact .inl ⟨h, signedValue_of_lt h⟩
  · exact .inr ⟨h, signedValue_of_le h⟩

/-- The signed reading of a bit-vector by its number. -/
theorem toInt_ofNat_eq_signedValue {w x : Nat} (hw : 0 < w) (hx : x < 2 ^ w) :
    (BitVec.ofNat w x).toInt = signedValue x w := by
  have hpow := two_pow_eq_half hw
  rw [BitVec.toInt_eq_toNat_cond, BitVec.toNat_ofNat, Nat.mod_eq_of_lt hx]
  rcases Nat.lt_or_ge x (2 ^ (w - 1)) with h | h
  · rw [if_pos (by omega), signedValue_of_lt h]
  · rw [if_neg (by omega), signedValue_of_le h]

/-- The reading of a number, brought to a width. -/
theorem Op.reading_ofNat (o : Op) {w : Nat} (hw : 0 < w) (n : Nat) :
    o.reading (BitVec.ofNat w n)
      = if o.isSigned then signedValue (n % 2 ^ w) w else ((n % 2 ^ w : Nat) : Int) := by
  have hmod : BitVec.ofNat w n = BitVec.ofNat w (n % 2 ^ w) := by
    apply BitVec.eq_of_toNat_eq
    simp
  have hlt : n % 2 ^ w < 2 ^ w := Nat.mod_lt _ (Nat.two_pow_pos w)
  rw [reading, BitVec.toNat_ofNat, hmod, toInt_ofNat_eq_signedValue hw hlt]

namespace Term

open Value

/-- An input evaluates to its number, taken modulo its width. -/
theorem eval_input {env : Assignment} {v : Variable} {n : Nat} (h : env v.name = some n) :
    eval env (.input v) = .ok (ofBitVec (BitVec.ofNat v.width n)) := by
  simp only [eval, symbolValue, h, ofNat_eq_ofBitVec]

/-- A literal evaluates to itself. -/
theorem eval_literal {env : Assignment} (n w : Nat) :
    eval env (.literal n w) = .ok (ofBitVec (BitVec.ofNat w n)) :=
  congrArg Except.ok (ofNat_eq_ofBitVec n w)

/-- A comparison evaluates to whether it holds of the readings of its operands. -/
theorem eval_compare {env : Assignment} {o : Op} (ho : o.isCompare) {a b : Term} {v : Nat}
    {x y : BitVec v} (ha : eval env a = .ok (ofBitVec x)) (hb : eval env b = .ok (ofBitVec y))
    (indices : List Nat) (w : Nat) :
    ∃ r, eval env (.apply (.op o indices) [a, b] w) = .ok (.bool r) ∧
      (r = true ↔ o.Relates (o.reading x) (o.reading y)) := by
  have hstrict : isLazy o = false := by
    cases o <;> first | rfl | cases ho
  have hargs : evalArgs env [a, b] = .ok [ofBitVec x, ofBitVec y] := by
    simp only [evalArgs, ha, hb]
    rfl
  rw [eval_op env hstrict indices w hargs]
  rcases Op.eq_or_order ho with rfl | rfl | ⟨f, hf⟩
  · refine ⟨decide (x = y), ?_, ?_⟩
    · simp [strictValue, allSame]
    · simp only [Op.Relates, Op.reading_inj, decide_eq_true_eq]
  · refine ⟨decide (x ≠ y), ?_, ?_⟩
    · simp [strictValue, allDistinct]
    · simp only [Op.Relates, ne_eq, Op.reading_inj, decide_eq_true_eq]
  · have hcompare : strictValue o indices w [ofBitVec x, ofBitVec y] = .bool (f v x y) := by
      rw [← compareValues_of_order hf x y]
      cases o <;> first | rfl | cases hf
    refine ⟨f v x y, congrArg Except.ok hcompare, ?_⟩
    cases o <;> cases hf <;>
      simp [Op.Relates, Op.reading, Op.isSigned, BitVec.ult, BitVec.ule, BitVec.slt, BitVec.sle]

end Term

end Pathwise
