import Mathlib.Data.List.Perm.Basic
import Mathlib.Order.Lattice
import Mathlib.Order.OrderDual
import Pathwise.Proofs.Domain.NormalForm

/-!
# Bounds in any order

The limits that bounds add up to depend on the order in which they are added: excluded points are
kept in that order, and a signed exclusion is dropped if no value that is left at that time reads as
its constant. The domain does not depend on it.

* **Boxes** (`Limits.box_foldl_add`): the ends of the limits without the excluded points. Adding a
  bound joins the box with what the bound leaves of the whole width, so that boxes are joined in any
  order.
* **Exclusions** (`Limits.shrink?_isSome_iff`): an interval of the limits disappears exactly if no
  value in it is allowed, whichever excluded points are kept outside of it.
* **Domains** (`Domain.ofBounds_perm`): limits with one box that allow the same values have the same
  domain.
-/

namespace Pathwise

namespace Limits

/-! ### Boxes -/

/-- The ends of limits. They are joined where values have to lie between both pairs of ends, which
raises lower ends and lowers upper ones. -/
def box (l : Limits) : Int × Intᵒᵈ × Int × Intᵒᵈ :=
  (l.ulo, .toDual l.uhi, l.slo, .toDual l.shi)

/-- The box of two limits together has the narrower one of each. -/
theorem sup_box (l m : Limits) :
    l.box ⊔ m.box =
      (max l.ulo m.ulo, .toDual (min l.uhi m.uhi), max l.slo m.slo, .toDual (min l.shi m.shi)) :=
  rfl

/-- Boxes are equal just if all four limits are. -/
theorem box_eq_iff {l m : Limits} :
    l.box = m.box ↔ l.ulo = m.ulo ∧ l.uhi = m.uhi ∧ l.slo = m.slo ∧ l.shi = m.shi := by
  simp [box]

/-- A box is below another just if no limit is narrower. -/
theorem box_le_iff {l m : Limits} :
    m.box ≤ l.box ↔ m.ulo ≤ l.ulo ∧ l.uhi ≤ m.uhi ∧ m.slo ≤ l.slo ∧ l.shi ≤ m.shi :=
  Iff.rfl

variable {l m : Limits}

/-- No limits are wider than those of the width. -/
theorem InRange.start_box_le (hl : l.InRange) : (start l.width).box ≤ l.box := by
  obtain ⟨hpos, hzero, huhi, hhalf, hshi⟩ := hl
  have hpow := two_pow_eq_half hpos
  have hcast : ((2 ^ l.width : Nat) : Int) = 2 ^ l.width := Int.natCast_pow 2 l.width
  rw [box_le_iff, start, ← hcast]
  simp only
  omega

/-- A comparison of the value as an unsigned number cuts the same from wider limits. -/
theorem box_unsigned (h : m.box ≤ l.box) (o : Op) (c : Int) :
    (l.unsigned o c).box = l.box ⊔ (m.unsigned o c).box := by
  rw [box_le_iff] at h
  rw [sup_box]
  cases o <;>
    simp only [unsigned, box, Prod.mk.injEq, EmbeddingLike.apply_eq_iff_eq] <;>
    omega

/-- A comparison of the value as a signed number cuts the same from wider limits. -/
theorem box_signed (h : m.box ≤ l.box) (o : Op) (c : Int) :
    (l.signed o c).box = l.box ⊔ (m.signed o c).box := by
  have hdistinct (k : Limits) : (k.signed .distinct c).box = k.box := by
    simp only [signed]
    split <;> rfl
  cases o with
  | distinct => rw [hdistinct, hdistinct, sup_eq_left.mpr h]
  | _ =>
      rw [box_le_iff] at h
      rw [sup_box]
      simp only [signed, box, Prod.mk.injEq, EmbeddingLike.apply_eq_iff_eq]
      omega

/-- Adding a bound joins the ends with those that the bound leaves of the whole width. -/
theorem InRange.box_add (hl : l.InRange) (b : Bound) :
    (l.add b).box = l.box ⊔ ((start l.width).add b).box := by
  have hstart := hl.start_box_le
  unfold Limits.add
  simp only
  split
  · split
    · exact box_signed hstart _ _
    · exact box_unsigned hstart _ _
  · exact box_unsigned hstart _ _
  · split
    · exact box_signed hstart _ _
    · exact (sup_eq_left.mpr hstart).symm

/-- The ends of the limits are joined from those of the single bounds. -/
theorem InRange.box_foldl_add (hl : l.InRange) (bounds : List Bound) :
    (bounds.foldl Limits.add l).box =
      (bounds.map fun b => ((start l.width).add b).box).foldl (· ⊔ ·) l.box := by
  induction bounds generalizing l with
  | nil => rfl
  | cons b bounds ih =>
      rw [List.foldl_cons, ih (hl.add b), width_add, hl.box_add b, List.map_cons, List.foldl_cons]

/-- The box does not depend on the order of the bounds. -/
theorem InRange.box_foldl_perm (hl : l.InRange) {bounds bounds' : List Bound}
    (h : bounds.Perm bounds') :
    (bounds.foldl Limits.add l).box = (bounds'.foldl Limits.add l).box := by
  rw [hl.box_foldl_add, hl.box_foldl_add]
  exact (h.map _).foldl_op_eq

/-! ### Exclusions -/

/-- The spans depend on the box only. -/
theorem spans_congr (hwidth : l.width = m.width) (hbox : l.box = m.box) : l.spans = m.spans := by
  obtain ⟨hulo, huhi, hslo, hshi⟩ := box_eq_iff.mp hbox
  simp only [spans_eq, lowSpan?, highSpan?, hwidth, hulo, huhi, hslo, hshi]

/-- An interval of the limits is kept exactly if a value in it is allowed. -/
theorem InRange.shrink?_isSome_iff (hl : l.InRange) {r : Int × Int} (hr : r ∈ l.spans) :
    (shrink? l.points r).isSome = true ↔
      ∃ x : Nat, x < 2 ^ l.width ∧ l.Allows x ∧ r.1 ≤ x ∧ x ≤ r.2 := by
  obtain ⟨hlo, -, hhi⟩ := (split_spans hl).bounds hl.pos hr
  constructor
  · intro h
    obtain ⟨s, hs⟩ := Option.isSome_iff_exists.mp h
    obtain ⟨h1, h2, h3, hend, -⟩ := shrink?_eq_some hs
    rw [mem_points] at hend
    have hx : ((s.1.toNat : Nat) : Int) = s.1 := Int.toNat_of_nonneg (by omega)
    have hlt : s.1.toNat < 2 ^ l.width := by omega
    refine ⟨s.1.toNat, hlt, (allows_iff_spans hl hlt).mpr ?_, ?_⟩
    · rw [hx]
      exact ⟨hend, r, hr, by omega, by omega⟩
    · omega
  · rintro ⟨x, hx, hallowed, h1, h2⟩
    rw [Option.isSome_iff_ne_none]
    intro hnone
    have hexcluded := shrink?_eq_none hnone h1 h2
    exact hallowed.not_excluded (mem_points.mp hexcluded)

/-! ### Domains -/

/-- Limits with the same ends that allow the same values have the same domain. -/
theorem domain_congr (hl : l.InRange) (hm : m.InRange) (hwidth : l.width = m.width)
    (hbox : l.box = m.box) (hallows : ∀ x < 2 ^ l.width, l.Allows x ↔ m.Allows x) :
    l.domain = m.domain := by
  have hlength : l.domain.ranges.length = m.domain.ranges.length := by
    simp only [domain, List.length_map, ranges_eq, List.length_filterMap_eq_countP]
    rw [← spans_congr hwidth hbox]
    refine List.countP_congr fun r hr => ?_
    rw [hl.shrink?_isSome_iff hr, hm.shrink?_isSome_iff (spans_congr hwidth hbox ▸ hr), ← hwidth]
    refine exists_congr fun x => and_congr_right fun hx => ?_
    rw [hallows x hx]
  refine (normal_domain hl).eq_of_contains_eq (normal_domain hm) hl.pos hwidth (fun x hx => ?_)
    hlength
  rw [Bool.eq_iff_iff, contains_domain_iff hl hx, contains_domain_iff hm (hwidth ▸ hx)]
  exact hallows x hx

end Limits

/-- The domain of an input does not depend on the order of the bounds. -/
theorem Domain.ofBounds_perm {v : Variable} (hv : 0 < v.width) {bounds bounds' : List Bound}
    (h : bounds.Perm bounds') : ofBounds v bounds = ofBounds v bounds' := by
  have hvar (bounds : List Bound) : ∀ b ∈ bounds.filter (·.var == v), b.var = v := by
    intro b hb
    simpa using (List.mem_filter.mp hb).2
  have hperm := h.filter (·.var == v)
  have hstart := Limits.start_inRange hv
  obtain ⟨hl, hlw, hallows⟩ := Limits.foldl_add (hvar bounds) hstart rfl
  obtain ⟨hm, hmw, hallows'⟩ := Limits.foldl_add (hvar bounds') hstart rfl
  refine Limits.domain_congr hl hm (hlw.trans hmw.symm) (hstart.box_foldl_perm hperm) fun x hx => ?_
  rw [hlw] at hx
  rw [hallows x hx, hallows' x hx]
  simp only [hperm.mem_iff]

end Pathwise
