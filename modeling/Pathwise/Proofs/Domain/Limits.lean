import Pathwise.Proofs.Term.Comparison

/-!
# Limits and the domains they leave

What limits allow, and that the domain made from them contains exactly that.

* **Adding** (`allows_add`, `foldl_add`): each bound removes the values of which it does not
  hold, and no others. The limits stay inside what the width allows (`InRange`), whatever the
  constants of the bounds are; that is what makes signed exclusions safe to translate.
* **Intervals** (`mem_spans_iff`, `split_spans`): the signed limits are at most two intervals of
  unsigned numbers, one on each side of the sign boundary, and a gap stays between them.
* **Shrinking** (`shrink?_eq_some`, `shrink?_eq_none`): an interval loses excluded numbers at its
  ends only, so that both ends are allowed. The loop that shrinks all intervals is over after one
  pass that changes something (`shrinkAll_eq_pass`).
* **Membership** (`contains_domain_iff`): a number is in the domain exactly if the limits allow it.
-/

namespace Pathwise

/-- What a bound says of the value of its input, extensions taken into account. -/
def Bound.Says (b : Bound) (x : Nat) : Prop :=
  let c : Int := b.value
  let s := signedValue b.value b.width
  let y := signedValue x b.var.width
  match b.widening with
  | .none => if b.op.isSigned then b.op.Relates y s else b.op.Relates x c
  | .zero => b.op.Relates x (if b.op.isSigned then s else c)
  | .sign => b.op.isSigned ∨ b.op = .eq ∨ b.op = .distinct → b.op.Relates y s

namespace Limits

/-- The limits allow a number as the value of the input. -/
structure Allows (l : Limits) (x : Nat) : Prop where
  ulo_le : l.ulo ≤ x
  le_uhi : x ≤ l.uhi
  slo_le : l.slo ≤ signedValue x l.width
  le_shi : signedValue x l.width ≤ l.shi
  not_excluded : (x : Int) ∉ l.excluded

/-- The limits are at least as narrow as the width makes them. -/
structure InRange (l : Limits) : Prop where
  pos : 0 < l.width
  zero_le : 0 ≤ l.ulo
  uhi_lt : l.uhi < (2 ^ l.width : Nat)
  half_le : -(2 ^ (l.width - 1) : Nat) ≤ l.slo
  shi_lt : l.shi < (2 ^ (l.width - 1) : Nat)

/-! ### Adding bounds -/

/-- At first the limits are those of the width. -/
theorem start_inRange {w : Nat} (hw : 0 < w) : (start w).InRange := by
  have hhalf := two_pow_eq_half hw
  have hpow : ((2 ^ w : Nat) : Int) = 2 ^ w := Int.natCast_pow 2 w
  constructor <;> simp only [start, ← hpow] <;> omega

/-- At first every number of the width is allowed. -/
theorem start_allows {w x : Nat} (hw : 0 < w) (hx : x < 2 ^ w) : (start w).Allows x := by
  have hhalf := two_pow_eq_half hw
  have hpow : ((2 ^ w : Nat) : Int) = 2 ^ w := Int.natCast_pow 2 w
  rcases Nat.lt_or_ge x (2 ^ (w - 1)) with h | h
  · have hs := signedValue_of_lt h
    constructor <;> simp only [start, ← hpow, hs, List.not_mem_nil, not_false_iff] <;> omega
  · have hs := signedValue_of_le h
    constructor <;> simp only [start, ← hpow, hs, List.not_mem_nil, not_false_iff] <;> omega

/-- An unsigned bound keeps the width. -/
@[simp] theorem width_unsigned (l : Limits) (o : Op) (c : Int) :
    (l.unsigned o c).width = l.width := by
  cases o <;> rfl

/-- A signed bound keeps the width. -/
@[simp] theorem width_signed (l : Limits) (o : Op) (c : Int) :
    (l.signed o c).width = l.width := by
  cases o <;> simp only [signed]
  split <;> rfl

/-- A bound keeps the width. -/
@[simp] theorem width_add (l : Limits) (b : Bound) : (l.add b).width = l.width := by
  unfold add
  simp only
  split <;> (try split) <;> simp

/-- An unsigned bound only narrows the limits. -/
theorem InRange.unsigned {l : Limits} (hl : l.InRange) (o : Op) (c : Int) :
    (l.unsigned o c).InRange := by
  obtain ⟨hpos, hzero, huhi, hhalf, hshi⟩ := hl
  fun_cases Limits.unsigned l o c <;> constructor <;> grind

/-- A signed bound only narrows the limits. -/
theorem InRange.signed {l : Limits} (hl : l.InRange) (o : Op) (c : Int) :
    (l.signed o c).InRange := by
  obtain ⟨hpos, hzero, huhi, hhalf, hshi⟩ := hl
  fun_cases Limits.signed l o c <;> constructor <;> grind

/-- What is allowed lies between both pairs of limits and is not excluded. -/
theorem allows_iff {l : Limits} {x : Nat} :
    l.Allows x ↔ l.ulo ≤ x ∧ x ≤ l.uhi ∧ l.slo ≤ signedValue x l.width ∧
      signedValue x l.width ≤ l.shi ∧ (x : Int) ∉ l.excluded :=
  ⟨fun ⟨a, b, c, d, e⟩ => ⟨a, b, c, d, e⟩, fun ⟨a, b, c, d, e⟩ => ⟨a, b, c, d, e⟩⟩

/-- After an unsigned bound, what was allowed before and meets the bound is allowed. -/
theorem allows_unsigned {l : Limits} (o : Op) (c : Int) {x : Nat} :
    (l.unsigned o c).Allows x ↔ l.Allows x ∧ o.Relates x c := by
  simp only [allows_iff]
  cases o <;> simp only [unsigned, Op.Relates, List.mem_append, List.mem_singleton, and_true] <;>
    grind

/-- A signed number and a number of the width are the same bits exactly if the number reads as the
signed one. -/
theorem toUnsigned_eq_iff {l : Limits} (hl : l.InRange) {c : Int} (hlo : l.slo ≤ c)
    (hhi : c ≤ l.shi) {x : Nat} (hx : x < 2 ^ l.width) :
    (x : Int) = l.toUnsigned c ↔ signedValue x l.width = c := by
  obtain ⟨hpos, -, -, hhalf, hshi⟩ := hl
  have hpow := two_pow_eq_half hpos
  have hcast : ((2 ^ l.width : Nat) : Int) = 2 ^ l.width := Int.natCast_pow 2 l.width
  rw [toUnsigned, ← hcast]
  rcases Nat.lt_or_ge x (2 ^ (l.width - 1)) with h | h
  · rw [signedValue_of_lt h]
    split <;> omega
  · rw [signedValue_of_le h]
    split <;> omega

/-- After a signed bound, what was allowed before and meets the bound as a signed number is
allowed. -/
theorem allows_signed {l : Limits} (hl : l.InRange) {o : Op}
    (ho : o.isSigned ∨ o = .eq ∨ o = .distinct) (c : Int) {x : Nat} (hx : x < 2 ^ l.width) :
    (l.signed o c).Allows x ↔ l.Allows x ∧ o.Relates (signedValue x l.width) c := by
  rw [allows_iff, allows_iff, width_signed]
  cases o <;> simp only [Op.isSigned, reduceCtorEq, Bool.false_eq_true, or_self] at ho <;>
    simp only [signed, Op.Relates]
  case distinct =>
    -- a constant that no value reads as excludes nothing, and is not recorded
    split
    · rename_i hc
      have hiff := toUnsigned_eq_iff hl hc.1 hc.2 hx
      simp only [List.mem_append, List.mem_singleton, hiff]
      grind
    · grind
  all_goals grind

/-- A bound keeps the limits within the width. -/
theorem InRange.add {l : Limits} (hl : l.InRange) (b : Bound) : (l.add b).InRange := by
  unfold Limits.add
  simp only
  split
  · split
    · exact hl.signed _ _
    · exact hl.unsigned _ _
  · exact hl.unsigned _ _
  · split
    · exact hl.signed _ _
    · exact hl

/-- Adding a bound allows just what was allowed and meets the bound. -/
theorem allows_add {l : Limits} (hl : l.InRange) (b : Bound) (hb : b.var.width = l.width)
    {x : Nat} (hx : x < 2 ^ l.width) : (l.add b).Allows x ↔ l.Allows x ∧ b.Says x := by
  unfold add Bound.Says
  simp only [hb]
  cases hwiden : b.widening with
  | none =>
      simp only
      split
      · rename_i ho
        exact allows_signed hl (.inl ho) _ hx
      · exact allows_unsigned _ _
  | zero => exact allows_unsigned _ _
  | sign =>
      simp only
      split
      · rename_i ho
        simp only [ho, forall_const]
        exact allows_signed hl ho _ hx
      · rename_i ho
        simp only [ho, false_imp_iff, and_true]

/-- The limits that bounds on one input add up to. -/
theorem foldl_add {v : Variable} {bounds : List Bound} (hbounds : ∀ b ∈ bounds, b.var = v)
    {l : Limits} (hl : l.InRange) (hlv : l.width = v.width) :
    (bounds.foldl add l).InRange ∧ (bounds.foldl add l).width = v.width ∧
      ∀ x < 2 ^ v.width, (bounds.foldl add l).Allows x ↔ l.Allows x ∧ ∀ b ∈ bounds, b.Says x := by
  induction bounds generalizing l with
  | nil => exact ⟨hl, hlv, by simp⟩
  | cons b bounds ih =>
      have hb : b.var.width = l.width := by rw [hbounds b List.mem_cons_self, hlv]
      obtain ⟨hrange, hwidth, hallows⟩ := ih (fun c hc => hbounds c (List.mem_cons_of_mem _ hc))
        (hl.add b) ((width_add l b).trans hlv)
      refine ⟨hrange, hwidth, fun x hx => ?_⟩
      rw [List.foldl_cons, hallows x hx, allows_add hl b hb (hlv ▸ hx), List.forall_mem_cons,
        and_assoc]

/-! ### Excluded points -/

/-- Inserting a point adds it and drops none. -/
theorem mem_insertPoint {x y : Int} {points : List Int} :
    y ∈ insertPoint x points ↔ y = x ∨ y ∈ points := by
  fun_induction insertPoint x points <;> grind

/-- Inserting a point keeps points in order and distinct. -/
theorem pairwise_insertPoint {x : Int} {points : List Int} (h : points.Pairwise (· < ·)) :
    (insertPoint x points).Pairwise (· < ·) := by
  fun_induction insertPoint x points with
  | case1 => simp
  | case2 y ys hlt =>
      refine List.pairwise_cons.mpr ⟨fun z hz => ?_, h⟩
      rcases List.mem_cons.mp hz with rfl | hz
      · exact hlt
      · exact Int.lt_trans hlt (List.rel_of_pairwise_cons h hz)
  | case3 y ys => exact h
  | case4 y ys hlt hne ih =>
      obtain ⟨hy, hys⟩ := List.pairwise_cons.mp h
      refine List.pairwise_cons.mpr ⟨fun z hz => ?_, ih hys⟩
      rcases mem_insertPoint.mp hz with rfl | hz
      · omega
      · exact hy z hz

/-- The points are those that are excluded. -/
theorem mem_points {l : Limits} {x : Int} : x ∈ l.points ↔ x ∈ l.excluded := by
  unfold points
  induction l.excluded with
  | nil => simp
  | cons y ys ih => rw [List.foldr_cons, mem_insertPoint, ih, List.mem_cons]

/-- The points are in order and distinct. -/
theorem pairwise_points (l : Limits) : l.points.Pairwise (· < ·) := by
  unfold points
  induction l.excluded with
  | nil => exact List.Pairwise.nil
  | cons y ys ih => exact pairwise_insertPoint ih

/-! ### Shrinking -/

/-- Raising a lower end passes over points only, and ends at a number that is none, or beyond the
interval. -/
theorem raise_spec (points : List Int) (lo hi : Int) :
    (raise points lo hi ≤ hi → raise points lo hi ∉ points) ∧
      ∀ y, lo ≤ y → y < raise points lo hi → y ∈ points := by
  fun_induction raise points lo hi with
  | case1 lo hin ih =>
      refine ⟨ih.1, fun y hy hlt => ?_⟩
      rcases Int.lt_or_eq_of_le hy with hy | rfl
      · exact ih.2 y hy hlt
      · exact hin.2
  | case2 lo hout =>
      refine ⟨fun hle hmem => hout ⟨hle, hmem⟩, fun y hy hlt => ?_⟩
      exact absurd hy (Int.not_le.mpr hlt)

/-- Lowering an upper end passes over points only, and ends at a number that is none, or beyond the
interval. -/
theorem lower_spec (points : List Int) (lo hi : Int) :
    (lo ≤ lower points lo hi → lower points lo hi ∉ points) ∧
      ∀ y, lower points lo hi < y → y ≤ hi → y ∈ points := by
  fun_induction lower points lo hi with
  | case1 hi hin ih =>
      refine ⟨ih.1, fun y hlt hy => ?_⟩
      rcases Int.lt_or_eq_of_le hy with hy | rfl
      · exact ih.2 y hlt (Int.le_sub_one_of_lt hy)
      · exact hin.2
  | case2 hi hout =>
      refine ⟨fun hle hmem => hout ⟨hle, hmem⟩, fun y hlt hy => ?_⟩
      exact absurd hlt (Int.not_lt.mpr hy)

/-- A lower end that is not excluded stays. -/
theorem raise_eq {points : List Int} {lo : Int} (h : lo ∉ points) (hi : Int) :
    raise points lo hi = lo := by
  rw [raise, if_neg fun hin => h hin.2]

/-- An upper end that is not excluded stays. -/
theorem lower_eq {points : List Int} {hi : Int} (h : hi ∉ points) (lo : Int) :
    lower points lo hi = hi := by
  rw [lower, if_neg fun hin => h hin.2]

/-- What is left of an interval has allowed ends and has lost excluded numbers only. -/
theorem shrink?_eq_some {points : List Int} {r s : Int × Int} (hs : shrink? points r = some s) :
    r.1 ≤ s.1 ∧ s.1 ≤ s.2 ∧ s.2 ≤ r.2 ∧ s.1 ∉ points ∧ s.2 ∉ points ∧
      ∀ y, y ∉ points → r.1 ≤ y → y ≤ r.2 → s.1 ≤ y ∧ y ≤ s.2 := by
  obtain ⟨hlo, hne, hhi⟩ := shrink?_within hs
  obtain ⟨hrnot, hrall⟩ := raise_spec points r.1 r.2
  obtain ⟨hlnot, hlall⟩ := lower_spec points (raise points r.1 r.2) r.2
  simp only [shrink?, interval?] at hs
  split at hs
  · cases hs
    refine ⟨hlo, hne, hhi, hrnot (Int.le_trans hne hhi), hlnot hne, fun y hy h1 h2 => ⟨?_, ?_⟩⟩
    · exact Int.not_lt.mp fun hlt => hy (hrall y h1 hlt)
    · exact Int.not_lt.mp fun hlt => hy (hlall y hlt h2)
  · cases hs

/-- An interval disappears only if all its numbers are excluded. -/
theorem shrink?_eq_none {points : List Int} {r : Int × Int} (hs : shrink? points r = none) {y : Int}
    (hlo : r.1 ≤ y) (hhi : y ≤ r.2) : y ∈ points := by
  obtain ⟨-, hrall⟩ := raise_spec points r.1 r.2
  obtain ⟨-, hlall⟩ := lower_spec points (raise points r.1 r.2) r.2
  simp only [shrink?, interval?] at hs
  split at hs
  · cases hs
  · rename_i hempty
    by_cases hy : y < raise points r.1 r.2
    · exact hrall y hlo hy
    · exact hlall y (by omega) hhi

/-- Shrinking what is left of an interval changes nothing. -/
theorem shrink?_idempotent {points : List Int} {r s : Int × Int} (hs : shrink? points r = some s) :
    shrink? points s = some s := by
  obtain ⟨-, hne, -, hlo, hhi, -⟩ := shrink?_eq_some hs
  simp only [shrink?, interval?, raise_eq hlo, lower_eq hhi, if_pos hne]

/-- A second pass changes nothing, so one is all it takes until the loop is over. -/
theorem shrinkAll_eq_pass (points : List Int) (rs : List (Int × Int)) :
    shrinkAll points rs = pass points rs := by
  have hagain : pass points (pass points rs) = pass points rs := by
    refine (List.filterMap_congr fun s hs => ?_).trans List.filterMap_some
    obtain ⟨r, -, hr⟩ := List.mem_filterMap.mp hs
    exact shrink?_idempotent hr
  rw [shrinkAll]
  split
  · rename_i hsame
    exact hsame.symm
  · rw [shrinkAll, dif_pos hagain]

/-! ### Intervals -/

/-- The intervals of the limits before excluded points are taken from their ends. -/
def spans (l : Limits) : List (Int × Int) :=
  join (l.pieces.filterMap fun (lo, hi) => interval? (max lo l.ulo) (min hi l.uhi))

/-- The ranges are what one pass leaves of the intervals. -/
theorem ranges_eq (l : Limits) : l.ranges = l.spans.filterMap (shrink? l.points) :=
  shrinkAll_eq_pass l.points l.spans

/-- Intervals as a domain of some width has them: at most one, or one on each side of the sign
boundary, and not touching. -/
def IsSplit (width : Nat) : List (Int × Int) → Prop
  | [] => True
  | [r] => 0 ≤ r.1 ∧ r.1 ≤ r.2 ∧ r.2 < (2 ^ width : Nat)
  | [r, s] =>
    0 ≤ r.1 ∧ r.1 ≤ r.2 ∧ r.2 < (2 ^ (width - 1) : Nat) ∧
      (2 ^ (width - 1) : Nat) ≤ s.1 ∧ s.1 ≤ s.2 ∧ s.2 < (2 ^ width : Nat) ∧ r.2 + 1 < s.1
  | _ => False

/-- The allowed numbers without a sign, as an interval. -/
def lowSpan? (l : Limits) : Option (Int × Int) :=
  interval? (max (max l.slo 0) l.ulo) (min l.shi l.uhi)

/-- The allowed numbers with a sign, as an interval of unsigned numbers. -/
def highSpan? (l : Limits) : Option (Int × Int) :=
  interval? (max (l.slo + 2 ^ l.width) l.ulo) (min (min l.shi (-1) + 2 ^ l.width) l.uhi)

/-- An interval that is cut is empty if it was empty before. -/
theorem interval?_bind_cut (lo hi ulo uhi : Int) :
    ((interval? lo hi).bind fun r => interval? (max r.1 ulo) (min r.2 uhi))
      = interval? (max lo ulo) (min hi uhi) := by
  simp only [interval?]
  split
  · rfl
  · rw [Option.bind_none, if_neg (by omega)]

/-- The spans are the numbers without a sign and those with one, joined where they touch. -/
theorem spans_eq (l : Limits) : l.spans = join (l.lowSpan?.toList ++ l.highSpan?.toList) := by
  have hfilter (o : Option (Int × Int)) (f : Int × Int → Option (Int × Int)) :
      o.toList.filterMap f = (o.bind f).toList := by
    cases o with
    | none => rfl
    | some r => cases h : f r <;> simp [h]
  have hshift :
      (interval? l.slo (min l.shi (-1))).map (fun r => (r.1 + 2 ^ l.width, r.2 + 2 ^ l.width))
      = interval? (l.slo + 2 ^ l.width) (min l.shi (-1) + 2 ^ l.width) := by
    simp only [interval?]
    split
    · rw [if_pos (by omega)]
      rfl
    · rw [if_neg (by omega)]
      rfl
  rw [spans, pieces, List.filterMap_append, hfilter, hfilter, hshift, interval?_bind_cut,
    interval?_bind_cut]
  rfl

/-- An interval has the ends it was made of, in the right order. -/
theorem interval?_eq_some {lo hi : Int} {r : Int × Int} (h : interval? lo hi = some r) :
    r = (lo, hi) ∧ lo ≤ hi := by
  simp only [interval?, Option.ite_none_right_eq_some, Option.some.injEq] at h
  exact ⟨h.2.symm, h.1⟩

/-- An interval holds what lies between its ends, and there is none if nothing does. -/
theorem mem_interval?_iff {lo hi y : Int} :
    (∃ r ∈ (interval? lo hi).toList, r.1 ≤ y ∧ y ≤ r.2) ↔ lo ≤ y ∧ y ≤ hi := by
  simp only [interval?]
  split
  · simp
  · simp only [Option.toList_none, List.not_mem_nil, false_and, exists_const, false_iff]
    omega

/-- Joining intervals keeps what they hold. -/
theorem mem_join_iff {rs : List (Int × Int)} (y : Int) (h : ∀ r ∈ rs, r.1 ≤ r.2) :
    (∃ r ∈ join rs, r.1 ≤ y ∧ y ≤ r.2) ↔ ∃ r ∈ rs, r.1 ≤ y ∧ y ≤ r.2 := by
  unfold join
  split
  · rename_i a b
    split
    · have ha := h a (by simp)
      have hb := h b (by simp)
      simp only [List.mem_cons, List.not_mem_nil, or_false, exists_eq_left, exists_eq_or_imp]
      omega
    · rfl
  · rfl

/-- The spans hold the numbers between both pairs of limits. -/
theorem mem_spans_iff {l : Limits} (hl : l.InRange) {x : Nat} (hx : x < 2 ^ l.width) :
    (∃ r ∈ l.spans, r.1 ≤ x ∧ x ≤ r.2) ↔
      l.ulo ≤ x ∧ x ≤ l.uhi ∧ l.slo ≤ signedValue x l.width ∧ signedValue x l.width ≤ l.shi := by
  obtain ⟨hpos, hzero, huhi, hhalf, hshi⟩ := hl
  have hpow := two_pow_eq_half hpos
  have hcast : ((2 ^ l.width : Nat) : Int) = 2 ^ l.width := Int.natCast_pow 2 l.width
  have hne : ∀ r ∈ l.lowSpan?.toList ++ l.highSpan?.toList, r.1 ≤ r.2 := by
    intro r hr
    rcases List.mem_append.mp hr with hr | hr <;>
      obtain ⟨rfl, hle⟩ := interval?_eq_some (Option.mem_toList.mp hr) <;> exact hle
  rw [spans_eq, mem_join_iff _ hne]
  simp only [List.mem_append, or_and_right, exists_or, lowSpan?, highSpan?, mem_interval?_iff]
  -- each number lies on one side of the sign boundary, and only the span of that side can have it
  rcases Nat.lt_or_ge x (2 ^ (l.width - 1)) with h | h
  · rw [signedValue_of_lt h]
    omega
  · rw [signedValue_of_le h]
    omega

/-- What is allowed is in a span and not excluded. -/
theorem allows_iff_spans {l : Limits} (hl : l.InRange) {x : Nat} (hx : x < 2 ^ l.width) :
    l.Allows x ↔ (x : Int) ∉ l.excluded ∧ ∃ r ∈ l.spans, r.1 ≤ x ∧ x ≤ r.2 := by
  rw [allows_iff, mem_spans_iff hl hx, and_comm (a := _ ∉ _)]
  simp only [and_assoc]

/-- There are at most two spans, one on each side of the sign boundary, and they do not touch. -/
theorem split_spans {l : Limits} (hl : l.InRange) : IsSplit l.width l.spans := by
  obtain ⟨hpos, hzero, huhi, hhalf, hshi⟩ := hl
  have hpow := two_pow_eq_half hpos
  have hcast : ((2 ^ l.width : Nat) : Int) = 2 ^ l.width := Int.natCast_pow 2 l.width
  rw [spans_eq]
  cases hlow : l.lowSpan? with
  | none =>
      cases hhigh : l.highSpan? with
      | none => trivial
      | some s =>
          obtain ⟨rfl, hs⟩ := interval?_eq_some hhigh
          show _ ∧ _ ∧ _
          simp only
          omega
  | some r =>
      obtain ⟨rfl, hr⟩ := interval?_eq_some hlow
      cases hhigh : l.highSpan? with
      | none =>
          show _ ∧ _ ∧ _
          simp only
          omega
      | some s =>
          obtain ⟨rfl, hs⟩ := interval?_eq_some hhigh
          simp only [Option.toList_some, List.singleton_append, join]
          split
          · show _ ∧ _ ∧ _
            simp only
            omega
          · show _ ∧ _ ∧ _ ∧ _ ∧ _ ∧ _ ∧ _
            simp only
            omega

/-! ### Domains -/

/-- Shrinking keeps intervals on their sides. -/
theorem split_ranges {l : Limits} (hl : l.InRange) : IsSplit l.width l.ranges := by
  have hsplit := split_spans hl
  have hpow := two_pow_eq_half hl.pos
  have hshrink {r s : Int × Int} (hr : shrink? l.points r = some s) := shrink?_eq_some hr
  rw [ranges_eq]
  match hspans : l.spans with
  | [] => trivial
  | [r] =>
      rw [hspans] at hsplit
      cases hr : shrink? l.points r with
      | none => simp [hr, IsSplit]
      | some r' =>
          obtain ⟨h1, h2, h3, -⟩ := hshrink hr
          simp only [IsSplit, List.filterMap_cons, hr, List.filterMap_nil] at hsplit ⊢
          omega
  | [r, s] =>
      rw [hspans] at hsplit
      cases hr : shrink? l.points r with
      | none =>
          cases hs : shrink? l.points s with
          | none => simp [hr, hs, IsSplit]
          | some s' =>
              obtain ⟨h1, h2, h3, -⟩ := hshrink hs
              simp only [IsSplit, List.filterMap_cons, hr, hs, List.filterMap_nil] at hsplit ⊢
              omega
      | some r' =>
          obtain ⟨h1, h2, h3, -⟩ := hshrink hr
          cases hs : shrink? l.points s with
          | none =>
              simp only [IsSplit, List.filterMap_cons, hr, hs, List.filterMap_nil] at hsplit ⊢
              omega
          | some s' =>
              obtain ⟨h4, h5, h6, -⟩ := hshrink hs
              simp only [IsSplit, List.filterMap_cons, hr, hs, List.filterMap_nil] at hsplit ⊢
              omega
  | _ :: _ :: _ :: _ =>
      rw [hspans] at hsplit
      exact hsplit.elim

/-- Spans consist of numbers of the width. -/
theorem IsSplit.bounds {width : Nat} (hw : 0 < width) {rs : List (Int × Int)}
    (h : IsSplit width rs) {r : Int × Int} (hr : r ∈ rs) :
    0 ≤ r.1 ∧ r.1 ≤ r.2 ∧ r.2 < (2 ^ width : Nat) := by
  have hpow := two_pow_eq_half hw
  match rs, h with
  | [s], h =>
      rw [List.mem_singleton.mp hr]
      exact h
  | [s, t], h =>
      simp only [IsSplit] at h
      rcases List.mem_cons.mp hr with rfl | hr
      · omega
      · rw [List.mem_singleton.mp hr]
        omega

/-- A number lies strictly inside one of the intervals. -/
def Inside (l : Limits) (y : Int) : Prop :=
  ∃ r ∈ l.ranges, r.1 < y ∧ y < r.2

/-- The points that a domain excludes are the excluded ones strictly inside of its ranges. -/
theorem mem_excluded_domain {l : Limits} (hl : l.InRange) {x : Nat} :
    x ∈ l.domain.excluded ↔ (x : Int) ∈ l.excluded ∧ l.Inside x := by
  have hsplit := split_ranges hl
  simp only [domain, List.mem_map, List.mem_filter, List.any_eq_true, Bool.and_eq_true,
    decide_eq_true_eq, mem_points]
  constructor
  · rintro ⟨y, ⟨hy, r, hr, hlo, hhi⟩, rfl⟩
    have hbounds := hsplit.bounds hl.pos hr
    rw [Int.toNat_of_nonneg (by omega)]
    exact ⟨hy, r, hr, hlo, hhi⟩
  · rintro ⟨hx, r, hr, hlo, hhi⟩
    exact ⟨x, ⟨hx, r, hr, hlo, hhi⟩, Int.toNat_natCast x⟩

/-- The ranges of a domain are those of the limits. -/
theorem any_contains_domain {l : Limits} (hl : l.InRange) {x : Nat} :
    (∃ i ∈ l.domain.ranges, i.lo ≤ x ∧ x ≤ i.hi) ↔ ∃ r ∈ l.ranges, r.1 ≤ x ∧ x ≤ r.2 := by
  have hsplit := split_ranges hl
  simp only [domain, List.mem_map]
  constructor
  · rintro ⟨_, ⟨r, hr, rfl⟩, hlo, hhi⟩
    have hbounds := hsplit.bounds hl.pos hr
    simp only at hlo hhi
    exact ⟨r, hr, by omega, by omega⟩
  · rintro ⟨r, hr, hlo, hhi⟩
    exact ⟨_, ⟨r, hr, rfl⟩, by simp only; omega, by simp only; omega⟩

/-- **The domain contains what the limits allow**, and nothing else. -/
theorem contains_domain_iff {l : Limits} (hl : l.InRange) {x : Nat} (hx : x < 2 ^ l.width) :
    l.domain.contains x = true ↔ l.Allows x := by
  have hcontains : l.domain.contains x = true ↔
      x ∉ l.domain.excluded ∧ ∃ i ∈ l.domain.ranges, i.lo ≤ x ∧ x ≤ i.hi := by
    simp [Domain.contains, Interval.contains]
  have hshrink {r s : Int × Int} (hr : shrink? l.points r = some s) := shrink?_eq_some hr
  have hgone {r : Int × Int} (hr : shrink? l.points r = none) {y : Int} (hlo : r.1 ≤ y)
      (hhi : y ≤ r.2) := shrink?_eq_none hr hlo hhi
  simp only [mem_points] at hshrink hgone
  rw [hcontains, allows_iff_spans hl hx, mem_excluded_domain hl, any_contains_domain hl, Inside,
    ranges_eq]
  simp only [List.mem_filterMap]
  constructor
  · rintro ⟨hout, r, ⟨s, hs, hsr⟩, hlo, hhi⟩
    obtain ⟨h1, h2, h3, hend, hend', -⟩ := hshrink hsr
    refine ⟨fun hx => hout ⟨hx, r, ⟨s, hs, hsr⟩, ?_, ?_⟩, s, hs, by omega, by omega⟩
    · exact Int.lt_iff_le_and_ne.mpr ⟨hlo, fun h => hend (h ▸ hx)⟩
    · exact Int.lt_iff_le_and_ne.mpr ⟨hhi, fun h => hend' (h ▸ hx)⟩
  · rintro ⟨hx, s, hs, hlo, hhi⟩
    refine ⟨fun h => hx h.1, ?_⟩
    cases hsr : shrink? l.points s with
    | none => exact absurd (hgone hsr hlo hhi) hx
    | some r =>
        obtain ⟨-, -, -, -, -, hkeep⟩ := hshrink hsr
        exact ⟨r, ⟨s, hs, hsr⟩, hkeep x hx hlo hhi⟩

end Limits

end Pathwise
