import Mathlib.Algebra.Order.Group.Unbundled.Int
import Mathlib.Data.Prod.Lex
import Mathlib.Order.Compare

/-!
# The order of numbers

Double-precision numbers are ordered by `<`, as long as they are numbers at all. `==` says which of
them stand in one place, and that is not equality: there are two zeros.

* **Places** (`place`): negative infinity, the negative numbers, zero, the positive numbers, and
  infinity. Of two numbers with one sign, that with the greater exponent is the further from zero,
  and of equal exponents that with the greater mantissa.
* **Comparison** (`compare_eq_compare_place`): two numbers compare as their places do. So the places
  decide `<` (`lt_iff_place_lt`) and `!=` (`bne_eq_place_bne`).
-/

namespace Pathwise.Decimal

open Float.Model (UnpackedFloat)

/-! ### Comparing integers and pairs -/

/-- Negation turns the order around. -/
theorem compare_neg (m n : Int) : compare (-m) (-n) = (compare m n).swap := by
  have hanti : StrictAnti fun n : Int => -n := fun _ _ h => Int.neg_lt_neg h
  rw [Int.compare_swap, ← cmp_eq_compare, ← cmp_eq_compare]
  exact hanti.cmp_map_eq m n

/-- Natural numbers compare like the integers they are. -/
theorem compare_natCast (m n : Nat) : compare (m : Int) n = compare m n := by
  rw [← cmp_eq_compare, ← cmp_eq_compare]
  exact Int.natCast_strictMono.cmp_map_eq m n

/-- Pairs compare by their first parts, and then by their second. -/
theorem compare_toLex {α β : Type} [LinearOrder α] [LinearOrder β] (a a' : α) (b b' : β) :
    compare (toLex (a, b)) (toLex (a', b')) = (compare a a').then (compare b b') := by
  rw [Prod.Lex.compare_def]
  rfl

/-! ### Places -/

/-- The place of a number that was taken apart. It does not matter where what is not a number
stands. -/
def placeOf : UnpackedFloat → Int ×ₗ Int ×ₗ Int
  | .infinity .negative => toLex (-2, toLex (0, 0))
  | .finite .negative mantissa exponent _ => toLex (-1, toLex (-exponent, -(mantissa : Int)))
  | .zero _ => toLex (0, toLex (0, 0))
  | .finite .positive mantissa exponent _ => toLex (1, toLex (exponent, (mantissa : Int)))
  | .infinity .positive => toLex (2, toLex (0, 0))
  | .notANumber => toLex (3, toLex (0, 0))

/-- Unpacked numbers compare like their places. -/
theorem compare_eq_compare_placeOf {x y : UnpackedFloat} (hx : x.isNaN = false)
    (hy : y.isNaN = false) : x.compare y = some (compare (placeOf x) (placeOf y)) := by
  -- numbers of different kinds or signs are told apart by the first component
  cases x with
  | notANumber => cases hx
  | infinity s =>
      cases y with
      | notANumber => cases hy
      | infinity t => cases s <;> cases t <;> rfl
      | zero t => cases s <;> rfl
      | finite t m e hm => cases s <;> cases t <;> rfl
  | zero s =>
      cases y with
      | notANumber => cases hy
      | infinity t => cases t <;> rfl
      | zero t => rfl
      | finite t m e hm => cases t <;> rfl
  | finite s m e hm =>
      cases y with
      | notANumber => cases hy
      | infinity t => cases s <;> cases t <;> rfl
      | zero t => cases s <;> rfl
      | finite t m' e' hm' =>
          cases s with
          | negative =>
              cases t with
              | positive => rfl
              | negative =>
                  show some ((compare e e').then (compare m m')).swap =
                    some (compare (toLex ((-1 : Int), toLex (-e, -(m : Int))))
                      (toLex (-1, toLex (-e', -(m' : Int)))))
                  rw [Ordering.swap_then, ← compare_neg, ← compare_natCast, ← compare_neg,
                    compare_toLex, compare_toLex]
                  rfl
          | positive =>
              cases t with
              | negative => rfl
              | positive =>
                  show some ((compare e e').then (compare m m')) =
                    some (compare (toLex ((1 : Int), toLex (e, (m : Int))))
                      (toLex (1, toLex (e', (m' : Int)))))
                  rw [← compare_natCast, compare_toLex, compare_toLex]
                  rfl

/-- The place of a number. -/
def place (x : Float) : Int ×ₗ Int ×ₗ Int :=
  placeOf x.toModel.unpack

variable {x y : Float}

/-- Numbers compare like their places. -/
theorem compare_eq_compare_place (hx : x.isNaN = false) (hy : y.isNaN = false) :
    x.toModel.compare y.toModel = some (compare (place x) (place y)) :=
  compare_eq_compare_placeOf hx hy

/-- A number is smaller just if its place is. -/
theorem lt_iff_place_lt (hx : x.isNaN = false) (hy : y.isNaN = false) :
    x < y ↔ place x < place y := by
  have hlt : x < y ↔ (x.toModel.compare y.toModel == some .lt) = true := decide_eq_true_iff
  rw [hlt, compare_eq_compare_place hx hy, beq_iff_eq, Option.some.injEq, compare_lt_iff_lt]

/-- Numbers differ just if their places do. -/
theorem bne_eq_place_bne (hx : x.isNaN = false) (hy : y.isNaN = false) :
    (x != y) = (place x != place y) := by
  have heq : (x == y) = (x.toModel.compare y.toModel == some .eq) := rfl
  rw [bne, bne, heq, compare_eq_compare_place hx hy, Bool.not_inj_iff, Bool.eq_iff_iff, beq_iff_eq,
    beq_iff_eq, Option.some.injEq, compare_eq_iff_eq]

end Pathwise.Decimal
