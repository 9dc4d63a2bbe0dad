import Pathwise.Term.Eval

/-!
# Values are bit-vectors

The evaluator computes with natural numbers below `2 ^ width`, with integers, and with a flipped
sign bit. This file says once, operator by operator, which operation on fixed-width bit-vectors
each of these computations is:

* **Readings** (`toInt_ofBitVec`, `isNegative_ofBitVec`): the number of a value, its sign and its
  signed reading are those of the bit-vector.
* **Signed order** (`orderKey_lt_iff`): with the sign bit flipped, the order of the numbers is the
  order of the signed readings.
* **Data** (`transformPair_udiv` and its neighbours): each transformation is the operation of the
  same SMT-LIB name, division by zero and shifts beyond the width included.

Everything else that is proved about terms goes through these equations.
-/

namespace Pathwise

namespace Value

variable {w : Nat}

/-- A bit-vector as a value. -/
def ofBitVec (x : BitVec w) : Value :=
  bits x.toNat w

@[simp] theorem toNat_ofBitVec (x : BitVec w) : (ofBitVec x).toNat = x.toNat := rfl

@[simp] theorem width_ofBitVec (x : BitVec w) : (ofBitVec x).width = w := rfl

/-- A value of some width is known by its bit-vector. -/
theorem ofBitVec_inj {x y : BitVec w} : ofBitVec x = ofBitVec y ↔ x = y := by
  simp [ofBitVec, BitVec.toNat_inj]

/-- Taking a number modulo the width is making a bit-vector of it. -/
theorem ofNat_eq_ofBitVec (n w : Nat) : ofNat n w = ofBitVec (BitVec.ofNat w n) := by
  simp [ofNat, ofBitVec]

/-- Taking an integer modulo the width is making a bit-vector of it, in two's complement. -/
theorem ofInt_eq_ofBitVec (n : Int) (w : Nat) : ofInt n w = ofBitVec (BitVec.ofInt w n) := by
  simp [ofInt, ofBitVec, BitVec.toNat_ofInt]

/-- The number of a bit-vector, brought to its own width, is the bit-vector. -/
theorem ofNat_toNat (x : BitVec w) : ofNat x.toNat w = ofBitVec x := by
  rw [ofNat_eq_ofBitVec, BitVec.ofNat_toNat, BitVec.setWidth_eq]

/-- The signed reading of a bit-vector, brought to its own width, is the bit-vector. -/
theorem ofInt_toInt (x : BitVec w) : ofInt x.toInt w = ofBitVec x := by
  rw [ofInt_eq_ofBitVec, BitVec.ofInt_toInt]

/-- The greatest number of a width has all bits set. -/
theorem ofNat_mask (w : Nat) : ofNat (mask w) w = ofBitVec (BitVec.allOnes w) := by
  simp [ofNat, ofBitVec, mask]

/-- A value is negative if its highest bit is set. -/
theorem isNegative_ofBitVec (x : BitVec w) : (ofBitVec x).isNegative = x.msb := by
  simp only [isNegative, width_ofBitVec, toNat_ofBitVec]
  rcases w with _ | w
  · simp [BitVec.eq_nil x]
  · simp [BitVec.msb_eq_getLsbD_last, BitVec.testBit_toNat]

/-- The integer of a value is the signed reading of its bit-vector. -/
theorem toInt_ofBitVec (x : BitVec w) : (ofBitVec x).toInt = x.toInt := by
  simp only [toInt, isNegative_ofBitVec, width_ofBitVec, toNat_ofBitVec, BitVec.toInt_eq_msb_cond]
  split <;> simp

/-- Values of one width are the same just if their bit-vectors are. -/
@[simp] theorem same_ofBitVec (x y : BitVec w) :
    same (ofBitVec x) (ofBitVec y) = decide (x = y) := by
  simp [same, ofBitVec, BitVec.toNat_inj, Bool.beq_eq_decide_eq]

/-- Truth values are the same just if they are equal. -/
@[simp] theorem same_bool (a b : Bool) : same (bool a) (bool b) = decide (a = b) := by
  simp [same, Bool.beq_eq_decide_eq]

/-! ### Signed order -/

/-- Setting a bit above a number adds its weight. -/
theorem xor_two_pow_of_lt {n k : Nat} (h : n < 2 ^ k) : n ^^^ 2 ^ k = n + 2 ^ k := by
  apply Nat.eq_of_testBit_eq
  intro i
  rw [Nat.testBit_xor, Nat.testBit_two_pow, Nat.add_comm]
  rcases Nat.lt_trichotomy i k with hi | rfl | hi
  · rw [Nat.testBit_two_pow_add_gt hi]
    simp [Nat.ne_of_gt hi]
  · simp [Nat.testBit_two_pow_add_eq]
  · have hk : 2 ^ (k + 1) ≤ 2 ^ i := Nat.pow_le_pow_right (by omega) hi
    have hn : n.testBit i = false := Nat.testBit_lt_two_pow (by omega)
    have hs : (2 ^ k + n).testBit i = false := Nat.testBit_lt_two_pow (by omega)
    simp [hn, hs, Nat.ne_of_lt hi]

/-- Clearing the highest bit of a number subtracts its weight. -/
theorem xor_two_pow_of_le {n k : Nat} (h : 2 ^ k ≤ n) (h' : n < 2 ^ (k + 1)) :
    n ^^^ 2 ^ k = n - 2 ^ k := by
  have hset : (n - 2 ^ k) ^^^ 2 ^ k = n := by
    rw [xor_two_pow_of_lt (by omega), Nat.sub_add_cancel h]
  calc n ^^^ 2 ^ k = ((n - 2 ^ k) ^^^ 2 ^ k) ^^^ 2 ^ k := by rw [hset]
    _ = n - 2 ^ k := by rw [Nat.xor_assoc, Nat.xor_self, Nat.xor_zero]

/-- Flipping the sign bit moves the signed numbers up until the least of them is zero. -/
theorem orderKey_ofBitVec (x : BitVec w) (hw : 0 < w) :
    ((ofBitVec x).orderKey : Int) = x.toInt + 2 ^ (w - 1) := by
  obtain ⟨k, rfl⟩ : ∃ k, w = k + 1 := ⟨w - 1, by omega⟩
  have hx := x.isLt
  have hp : 2 ^ (k + 1) = 2 * 2 ^ k := by omega
  have hc : ((2 ^ k : Nat) : Int) = 2 ^ k := Int.natCast_pow 2 k
  simp only [orderKey, width_ofBitVec, toNat_ofBitVec, Nat.add_sub_cancel]
  rw [if_neg (by omega), BitVec.toInt_eq_toNat_cond, hp]
  by_cases h : x.toNat < 2 ^ k
  · rw [xor_two_pow_of_lt h, if_pos (by omega)]
    omega
  · rw [xor_two_pow_of_le (by omega) hx, if_neg (by omega)]
    omega

/-- The keys by which signed values are compared have the order of their integers. -/
theorem orderKey_lt_iff (x y : BitVec w) :
    (ofBitVec x).orderKey < (ofBitVec y).orderKey ↔ x.toInt < y.toInt := by
  rcases Nat.eq_zero_or_pos w with rfl | hw
  · simp [BitVec.eq_nil x, BitVec.eq_nil y]
  · have hx := orderKey_ofBitVec x hw
    have hy := orderKey_ofBitVec y hw
    omega

end Value

namespace Term

open Value

variable {w : Nat}

/-! ### Operations on two bit-vectors -/

/-- Subtraction wraps around. -/
theorem transformPair_sub (x y : BitVec w) :
    transformPair .sub (ofBitVec x) (ofBitVec y) = ofBitVec (x - y) := by
  simp only [transformPair, toNat_ofBitVec, width_ofBitVec, ofInt_eq_ofBitVec]
  simp [Int.sub_eq_add_neg, BitVec.ofInt_add, BitVec.ofInt_neg, BitVec.sub_eq_add_neg]

/-- Unsigned division gives all ones where the divisor is zero. -/
theorem transformPair_udiv (x y : BitVec w) :
    transformPair .udiv (ofBitVec x) (ofBitVec y) = ofBitVec (x.smtUDiv y) := by
  rw [BitVec.smtUDiv_eq]
  by_cases h : y = 0#w
  · subst h
    simp [transformPair, ofNat_mask]
  · have hy : y.toNat ≠ 0 := fun h' => h (BitVec.eq_of_toNat_eq (by simpa using h'))
    show Value.ofNat (if y.toNat = 0 then mask w else x.toNat / y.toNat) w = _
    rw [if_neg hy, if_neg h, ← BitVec.toNat_udiv, ofNat_toNat]

/-- The unsigned remainder by zero is the dividend. -/
theorem transformPair_urem (x y : BitVec w) :
    transformPair .urem (ofBitVec x) (ofBitVec y) = ofBitVec (x % y) := by
  by_cases h : y.toNat = 0
  · have hy : y = 0#w := BitVec.eq_of_toNat_eq (by simpa using h)
    simp [transformPair, hy, ofNat_toNat]
  · show Value.ofNat (if y.toNat = 0 then x.toNat else x.toNat % y.toNat) w = _
    rw [if_neg h, ← BitVec.toNat_umod, ofNat_toNat]

/-- Away from zero the division of SMT-LIB is the ordinary one. -/
theorem smtSDiv_of_ne_zero (x : BitVec w) {y : BitVec w} (h : y ≠ 0#w) :
    x.smtSDiv y = x.sdiv y := by
  have hn : -y ≠ 0#w := fun h' => h (BitVec.neg_eq_zero_iff.mp h')
  rw [BitVec.smtSDiv_eq, BitVec.sdiv_eq]
  simp only [BitVec.smtUDiv_eq, if_neg h, if_neg hn]
  rfl

/-- Signed division divides the magnitudes and puts the sign back. -/
theorem transformPair_sdiv (x y : BitVec w) :
    transformPair .sdiv (ofBitVec x) (ofBitVec y) = ofBitVec (x.smtSDiv y) := by
  by_cases h : y.toNat = 0
  · have hy : y = 0#w := BitVec.eq_of_toNat_eq (by simpa using h)
    subst hy
    rw [BitVec.smtSDiv_zero, BitVec.slt_zero_eq_msb]
    cases hx : x.msb
    · simp [transformPair, isNegative_ofBitVec, hx, ofNat_mask]
    · simp [transformPair, isNegative_ofBitVec, hx, ofNat_eq_ofBitVec]
  · have hy : y ≠ 0#w := fun h' => h (by simp [h'])
    simp only [transformPair, toNat_ofBitVec, width_ofBitVec, toInt_ofBitVec, if_neg h]
    -- the most negative number divided by -1 wraps around on both sides
    rw [smtSDiv_of_ne_zero x hy, ofInt_eq_ofBitVec, ofBitVec_inj]
    apply BitVec.eq_of_toInt_eq
    rw [BitVec.toInt_ofInt, BitVec.toInt_sdiv]

/-- The signed remainder has the sign of the dividend. -/
theorem transformPair_srem (x y : BitVec w) :
    transformPair .srem (ofBitVec x) (ofBitVec y) = ofBitVec (x.srem y) := by
  by_cases h : y.toNat = 0
  · have hy : y = 0#w := BitVec.eq_of_toNat_eq (by simpa using h)
    simp [transformPair, hy, ofNat_toNat]
  · simp only [transformPair, toNat_ofBitVec, width_ofBitVec, toInt_ofBitVec, if_neg h]
    rw [← BitVec.toInt_srem, ofInt_toInt]

/-- A shift by less than the width is a shift by that number. -/
theorem shiftAmount?_of_lt {v : Nat} {y : BitVec w} (h : y.toNat < v) :
    shiftAmount? v (ofBitVec y) = some y.toNat :=
  if_pos h

/-- A shift by the width or more shifts everything out. -/
theorem shiftAmount?_of_le {v : Nat} {y : BitVec w} (h : v ≤ y.toNat) :
    shiftAmount? v (ofBitVec y) = none :=
  if_neg (Nat.not_lt.mpr h)

/-- A shift to the left fills in zeros. -/
theorem transformPair_shl (x y : BitVec w) :
    transformPair .shl (ofBitVec x) (ofBitVec y) = ofBitVec (x <<< y) := by
  simp only [transformPair, width_ofBitVec, BitVec.shiftLeft_eq']
  rcases Nat.lt_or_ge y.toNat w with h | h
  · simp only [shiftAmount?_of_lt h, toNat_ofBitVec, ofNat_eq_ofBitVec]
    rfl
  · simp only [shiftAmount?_of_le h, ofNat_eq_ofBitVec, BitVec.shiftLeft_eq_zero h]

/-- A logical shift to the right fills in zeros. -/
theorem transformPair_lshr (x y : BitVec w) :
    transformPair .lshr (ofBitVec x) (ofBitVec y) = ofBitVec (x >>> y) := by
  simp only [transformPair, width_ofBitVec, BitVec.ushiftRight_eq']
  rcases Nat.lt_or_ge y.toNat w with h | h
  · simp only [shiftAmount?_of_lt h, toNat_ofBitVec]
    rw [← BitVec.toNat_ushiftRight, ofNat_toNat]
  · simp only [shiftAmount?_of_le h, ofNat_eq_ofBitVec, BitVec.ushiftRight_eq_zero h]

/-- Shifted out completely, only copies of the sign are left. -/
theorem sshiftRight_of_le (x : BitVec w) {n : Nat} (h : w ≤ n) :
    x.sshiftRight n = if x.msb then BitVec.allOnes w else 0#w := by
  ext i hi
  rw [BitVec.getElem_sshiftRight, dif_neg (by omega)]
  cases x.msb <;> simp

/-- An arithmetic shift to the right fills in the sign. -/
theorem transformPair_ashr (x y : BitVec w) :
    transformPair .ashr (ofBitVec x) (ofBitVec y) = ofBitVec (x.sshiftRight' y) := by
  simp only [transformPair, width_ofBitVec, toInt_ofBitVec, isNegative_ofBitVec,
    BitVec.sshiftRight_eq']
  rcases Nat.lt_or_ge y.toNat w with h | h
  · have hpow : (2 : Int) ^ y.toNat = ((2 ^ y.toNat : Nat) : Int) := by
      push_cast
      rfl
    simp only [shiftAmount?_of_lt h]
    rw [hpow, ← Int.shiftRight_eq_div_pow, ← BitVec.toInt_sshiftRight, ofInt_toInt]
  · simp only [shiftAmount?_of_le h, sshiftRight_of_le x h]
    cases x.msb
    · simp [ofNat_eq_ofBitVec]
    · simp [ofNat_mask]

/-! ### Operations on one and on many bit-vectors -/

/-- The complement of a bit-vector. -/
theorem transformValues_bvNot (x : BitVec w) :
    transformValues .bvNot [ofBitVec x] = ofBitVec (~~~x) := by
  have hnot : mask w - x.toNat = (~~~x).toNat := by simp [mask]
  simp only [transformValues, toNat_ofBitVec, width_ofBitVec, hnot, ofNat_toNat]

/-- The negation of a bit-vector, in two's complement. -/
theorem transformValues_bvNeg (x : BitVec w) :
    transformValues .bvNeg [ofBitVec x] = ofBitVec (-x) := by
  simp only [transformValues, toNat_ofBitVec, width_ofBitVec, ofInt_eq_ofBitVec, BitVec.ofInt_neg]
  simp

/-- Folding an operation over numbers modulo `2 ^ w` folds the operation on bit-vectors that it
computes. -/
theorem foldNats_ofBitVec {f : Nat → Nat → Nat} {g : BitVec w → BitVec w → BitVec w}
    (hfg : ∀ x y, (g x y).toNat = f x.toNat y.toNat % 2 ^ w) (x : BitVec w)
    (ys : List (BitVec w)) :
    foldNats f (ofBitVec x) (ys.map ofBitVec) = ofBitVec (ys.foldl g x) := by
  have hfold : (ys.map ofBitVec).foldl (fun n v => f n v.toNat % 2 ^ w) x.toNat
      = (ys.foldl g x).toNat := by
    induction ys generalizing x with
    | nil => rfl
    | cons y ys ih =>
        simp only [List.map_cons, List.foldl_cons, toNat_ofBitVec]
        rw [← hfg x y]
        exact ih (g x y)
  simp only [foldNats, width_ofBitVec, toNat_ofBitVec, hfold, ofNat_toNat]

/-! ### Changes of width -/

/-- Extraction takes the bits between two indices. -/
theorem structuralValues_extract (x : BitVec w) (hi lo : Nat) :
    structuralValues .extract [hi, lo] (hi - lo + 1) [ofBitVec x]
      = ofBitVec (x.extractLsb hi lo) :=
  ofNat_eq_ofBitVec _ _

/-- Extension by zeros keeps the number. -/
theorem structuralValues_zeroExtend (x : BitVec w) (n : Nat) :
    structuralValues .zeroExtend [n] (w + n) [ofBitVec x] = ofBitVec (x.zeroExtend (w + n)) := by
  simp only [structuralValues, toNat_ofBitVec, ofNat_eq_ofBitVec, BitVec.ofNat_toNat]

/-- Extension by the sign keeps the signed number. -/
theorem structuralValues_signExtend (x : BitVec w) (n : Nat) :
    structuralValues .signExtend [n] (w + n) [ofBitVec x] = ofBitVec (x.signExtend (w + n)) := by
  simp only [structuralValues, toInt_ofBitVec, ofInt_eq_ofBitVec]
  rfl

end Term

end Pathwise
