import Mathlib.Logic.Basic
import Pathwise.Path.Basic

/-!
# Equality of terms

Terms can be compared, and so can constraints and paths. Terms contain lists of terms, so the
comparison is written out: it follows both terms down to their leaves.
-/

namespace Pathwise

namespace Term

mutual

/-- Whether two terms are the same. -/
def isSame : Term → Term → Bool
  | input v, input w => v == w
  | cell v l, cell w k => v == w && l == k
  | array v, array w => v == w
  | literal n v, literal m w => n == m && v == w
  | truth b, truth c => b == c
  | apply h as v, apply k bs w => h == k && areSame as bs && v == w
  | _, _ => false

/-- Whether two lists of terms are the same. -/
def areSame : List Term → List Term → Bool
  | [], [] => true
  | t :: ts, u :: us => isSame t u && areSame ts us
  | _, _ => false

end

/-- Terms are found to be the same just if they are equal. -/
theorem isSame_iff (t u : Term) : isSame t u = true ↔ t = u := by
  apply isSame.induct (fun t u => isSame t u = true ↔ t = u)
    (fun ts us => areSame ts us = true ↔ ts = us)
  case case1 => simp [isSame]
  case case2 => simp [isSame]
  case case3 => simp [isSame]
  case case4 => simp [isSame]
  case case5 => simp [isSame]
  case case6 =>
    intro h as v k bs w ih
    simp [isSame, ih, and_assoc]
  case case7 =>
    intro t u hinput hcell harray hliteral htruth happly
    simp only [isSame, Bool.false_eq_true, false_iff]
    rintro rfl
    cases t with
    | input v => exact hinput v v rfl rfl
    | cell v l => exact hcell v l v l rfl rfl
    | array v => exact harray v v rfl rfl
    | literal n w => exact hliteral n w n w rfl rfl
    | truth b => exact htruth b b rfl rfl
    | apply h as w => exact happly h as w h as w rfl rfl
  case case8 => simp [areSame]
  case case9 =>
    intro t ts u us iht ihts
    simp [areSame, iht, ihts]
  case case10 =>
    intro ts us hnil hcons
    simp only [areSame, Bool.false_eq_true, false_iff]
    rintro rfl
    cases ts with
    | nil => exact hnil rfl rfl
    | cons t ts => exact hcons t ts t ts rfl rfl

instance : DecidableEq Term := fun t u =>
  decidable_of_iff (isSame t u = true) (isSame_iff t u)

end Term

deriving instance DecidableEq for Constraint
deriving instance DecidableEq for Path

end Pathwise
