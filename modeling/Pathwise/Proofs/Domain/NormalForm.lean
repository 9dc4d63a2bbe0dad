import Mathlib.Data.List.Sort
import Pathwise.Proofs.Domain.Exactness

/-!
# The normal form of domains

Inferred domains have a normal form (`normal_domain`): at most one interval, or one on each side of
the sign boundary with a gap between them, and excluded points that ascend and lie strictly inside
an interval. The ends of the intervals are members then, and so are all points inside that are not
excluded. So the form tells whether a domain has no members (`Normal.isEmpty_iff`) or all
(`Normal.isFull_iff`).

The normal form is not quite canonical. A gap at the sign boundary can be the space between two
intervals, or be made of excluded points of a single one, and both forms are inferred, from a signed
bound and from an exclusion. That is the only freedom there is: normal domains with the same members
and the same number of intervals are equal (`Normal.eq_of_contains_eq`).
-/

namespace Pathwise

/-- An interval is known by its ends. -/
theorem Interval.eq_of_bounds_eq {r s : Interval} (hlo : r.lo = s.lo) (hhi : r.hi = s.hi) :
    r = s := by
  cases r
  cases s
  simp_all

namespace Domain

/-- Intervals in normal form. -/
inductive Intervals (width : Nat) : List Interval → Prop
  | none : Intervals width []
  | one {r : Interval} (hr : r.lo ≤ r.hi) (hlt : r.hi < 2 ^ width) : Intervals width [r]
  | two {r s : Interval} (hr : r.lo ≤ r.hi) (hlow : r.hi < 2 ^ (width - 1))
      (hhigh : 2 ^ (width - 1) ≤ s.lo) (hs : s.lo ≤ s.hi) (hlt : s.hi < 2 ^ width)
      (hgap : r.hi + 1 < s.lo) : Intervals width [r, s]

/-- Domains in normal form. -/
structure Normal (d : Domain) : Prop where
  intervals : Intervals d.width d.ranges
  ascending : d.excluded.Pairwise (· < ·)
  inside : ∀ x ∈ d.excluded, ∃ r ∈ d.ranges, r.lo < x ∧ x < r.hi

/-- A domain contains what lies in a range and is not excluded. -/
theorem contains_iff {d : Domain} {x : Nat} :
    d.contains x = true ↔ x ∉ d.excluded ∧ ∃ r ∈ d.ranges, r.lo ≤ x ∧ x ≤ r.hi := by
  simp [contains, Interval.contains]

/-- No end of an interval in normal form lies inside another. -/
theorem Intervals.end_not_inside {width : Nat} {rs : List Interval} (h : Intervals width rs)
    {r s : Interval} (hr : r ∈ rs) (hs : s ∈ rs) :
    ¬ (s.lo < r.lo ∧ r.lo < s.hi) ∧ ¬ (s.lo < r.hi ∧ r.hi < s.hi) := by
  cases h with
  | none => cases hr
  | one =>
      rw [List.mem_singleton.mp hr, List.mem_singleton.mp hs]
      omega
  | two =>
      simp only [List.mem_cons, List.not_mem_nil, or_false] at hr hs
      rcases hr with rfl | rfl <;> rcases hs with rfl | rfl <;> omega

/-- The ranges consist of numbers of the width, and none is empty. -/
theorem Intervals.bounds {width : Nat} (hw : 0 < width) {rs : List Interval}
    (h : Intervals width rs) {r : Interval} (hr : r ∈ rs) : r.lo ≤ r.hi ∧ r.hi < 2 ^ width := by
  have hpow := two_pow_eq_half hw
  cases h with
  | none => cases hr
  | one =>
      rw [List.mem_singleton.mp hr]
      omega
  | two =>
      simp only [List.mem_cons, List.not_mem_nil, or_false] at hr
      rcases hr with rfl | rfl <;> omega

/-- There are at most two ranges. -/
theorem Intervals.length_le {width : Nat} {rs : List Interval} (h : Intervals width rs) :
    rs.length ≤ 2 := by
  cases h <;> simp

/-- Between two intervals at least one number is missing. -/
theorem Intervals.pairwise_gap {width : Nat} {rs : List Interval} (h : Intervals width rs) :
    rs.Pairwise fun r s => r.hi + 1 < s.lo := by
  cases h with
  | none => exact .nil
  | one => exact List.pairwise_singleton _ _
  | two _ _ _ _ _ hgap => exact List.pairwise_pair.mpr hgap

namespace Normal

variable {d e : Domain}

/-- Both ends of an interval are members. -/
theorem contains_ends (hd : d.Normal) (hw : 0 < d.width) {r : Interval} (hr : r ∈ d.ranges) :
    d.contains r.lo = true ∧ d.contains r.hi = true := by
  have hle := (hd.intervals.bounds hw hr).1
  refine ⟨contains_iff.mpr ⟨fun hx => ?_, r, hr, by omega⟩,
    contains_iff.mpr ⟨fun hx => ?_, r, hr, by omega⟩⟩
  · obtain ⟨s, hs, hin⟩ := hd.inside _ hx
    exact (hd.intervals.end_not_inside hr hs).1 hin
  · obtain ⟨s, hs, hin⟩ := hd.inside _ hx
    exact (hd.intervals.end_not_inside hr hs).2 hin

/-- The ends of ranges are not excluded. -/
theorem ends_not_excluded (hd : d.Normal) (hw : 0 < d.width) {r : Interval} (hr : r ∈ d.ranges) :
    r.lo ∉ d.excluded ∧ r.hi ∉ d.excluded := by
  obtain ⟨hlo, hhi⟩ := hd.contains_ends hw hr
  exact ⟨(contains_iff.mp hlo).1, (contains_iff.mp hhi).1⟩

/-- The ends of an interval lie in intervals of any domain with the same members. -/
theorem ends_covered (hd : d.Normal) (hw : 0 < d.width)
    (h : ∀ x < 2 ^ d.width, d.contains x = e.contains x) {r : Interval} (hr : r ∈ d.ranges) :
    (∃ s ∈ e.ranges, s.lo ≤ r.lo ∧ r.lo ≤ s.hi) ∧ ∃ s ∈ e.ranges, s.lo ≤ r.hi ∧ r.hi ≤ s.hi := by
  obtain ⟨hlo, hhi⟩ := hd.contains_ends hw hr
  obtain ⟨hle, hlt⟩ := hd.intervals.bounds hw hr
  rw [h _ (by omega)] at hlo hhi
  exact ⟨(contains_iff.mp hlo).2, (contains_iff.mp hhi).2⟩

/-- Normal domains with the same numbers and equally many ranges have the same ranges. -/
theorem ranges_eq (hd : d.Normal) (he : e.Normal) (hw : 0 < d.width) (hwidth : d.width = e.width)
    (h : ∀ x < 2 ^ d.width, d.contains x = e.contains x)
    (hlen : d.ranges.length = e.ranges.length) : d.ranges = e.ranges := by
  have hcover {r : Interval} (hr : r ∈ d.ranges) := hd.ends_covered hw h hr
  have hcover' {s : Interval} (hs : s ∈ e.ranges) :=
    he.ends_covered (hwidth ▸ hw) (fun x hx => (h x (hwidth ▸ hx)).symm) hs
  have hdi := hd.intervals
  have hei := he.intervals
  rw [← hwidth] at hei
  generalize d.ranges = rs at *
  generalize e.ranges = ss at *
  cases hdi with
  | none =>
      obtain rfl : ss = [] := List.length_eq_zero_iff.mp hlen.symm
      rfl
  | @one r hr hlt =>
      obtain ⟨s, rfl⟩ := List.length_eq_one_iff.mp hlen.symm
      have hr := hcover (r := r) (by simp)
      have hs := hcover' (s := s) (by simp)
      simp only [List.mem_singleton, exists_eq_left] at hr hs
      rw [Interval.eq_of_bounds_eq (r := r) (s := s) (by omega) (by omega)]
  | @two r r' hr hlow hhigh hr' hlt hgap =>
      obtain ⟨s, s', rfl⟩ := List.length_eq_two.mp hlen.symm
      obtain _ | _ | ⟨hs, hslow, hshigh, hs', hslt, hsgap⟩ := hei
      -- an end below the sign boundary can only lie in the lower interval of the other side
      have h₁ := hcover (r := r) (by simp)
      have h₂ := hcover (r := r') (by simp)
      have h₃ := hcover' (s := s) (by simp)
      have h₄ := hcover' (s := s') (by simp)
      simp only [List.mem_cons, List.not_mem_nil, or_false, exists_eq_or_imp, exists_eq_left]
        at h₁ h₂ h₃ h₄
      rw [Interval.eq_of_bounds_eq (r := r) (s := s) (by omega) (by omega),
        Interval.eq_of_bounds_eq (r := r') (s := s') (by omega) (by omega)]

/-- Normal domains with the same numbers and the same ranges exclude the same. -/
theorem excluded_eq (hd : d.Normal) (he : e.Normal) (hw : 0 < d.width)
    (hwidth : d.width = e.width) (h : ∀ x < 2 ^ d.width, d.contains x = e.contains x)
    (hranges : d.ranges = e.ranges) : d.excluded = e.excluded := by
  have hsub {d e : Domain} (hd : d.Normal) (hw : 0 < d.width)
      (h : ∀ x < 2 ^ d.width, d.contains x = e.contains x) (hranges : d.ranges = e.ranges)
      {x : Nat} (hx : x ∈ d.excluded) : x ∈ e.excluded := by
    obtain ⟨r, hr, hlo, hhi⟩ := hd.inside x hx
    have hlt := (hd.intervals.bounds hw hr).2
    by_contra hne
    have hin : e.contains x = true :=
      contains_iff.mpr ⟨hne, r, hranges ▸ hr, Nat.le_of_lt hlo, Nat.le_of_lt hhi⟩
    rw [← h x (by omega)] at hin
    exact (contains_iff.mp hin).1 hx
  refine hd.ascending.eq_of_mem_iff he.ascending fun x => ⟨hsub hd hw h hranges, ?_⟩
  exact hsub he (hwidth ▸ hw) (fun x hx => (h x (hwidth ▸ hx)).symm) hranges.symm

/-- Of the domains in normal form with given members, there is at most one for each number of
intervals. -/
theorem eq_of_contains_eq (hd : d.Normal) (he : e.Normal) (hw : 0 < d.width)
    (hwidth : d.width = e.width) (h : ∀ x < 2 ^ d.width, d.contains x = e.contains x)
    (hlen : d.ranges.length = e.ranges.length) : d = e := by
  have hranges := hd.ranges_eq he hw hwidth h hlen
  have hexcluded := hd.excluded_eq he hw hwidth h hranges
  obtain ⟨w, rs, xs⟩ := d
  obtain ⟨w', rs', xs'⟩ := e
  simp_all

/-- A domain without intervals has no members, and any other has some. -/
theorem isEmpty_iff (hd : d.Normal) (hw : 0 < d.width) :
    d.isEmpty = true ↔ ∀ x < 2 ^ d.width, d.contains x = false := by
  rw [isEmpty, List.isEmpty_iff]
  constructor
  · intro hnone x _
    rw [← Bool.not_eq_true, contains_iff, hnone]
    simp
  · intro hall
    refine List.eq_nil_iff_forall_not_mem.mpr fun r hr => ?_
    obtain ⟨hle, hlt⟩ := hd.intervals.bounds hw hr
    have hlo : d.contains r.lo = true := (hd.contains_ends hw hr).1
    rw [hall r.lo (by omega)] at hlo
    cases hlo

end Normal

/-- The domain of all numbers is normal. -/
theorem normal_full (width : Nat) : (full width).Normal where
  intervals := .one (Nat.zero_le _) (Nat.sub_lt (Nat.two_pow_pos width) Nat.one_pos)
  ascending := .nil
  inside _ hx := nomatch hx

/-- The domain of all numbers contains each of them. -/
theorem contains_full {width x : Nat} (hx : x < 2 ^ width) : (full width).contains x = true :=
  contains_iff.mpr ⟨List.not_mem_nil, ⟨0, mask width⟩, List.mem_singleton_self _, Nat.zero_le x,
    Nat.le_sub_one_of_lt hx⟩

/-- Intervals without a number missing are one. -/
theorem Intervals.length_eq_one {width : Nat} {rs : List Interval} (h : Intervals width rs)
    (hall : ∀ x < 2 ^ width, ∃ r ∈ rs, r.lo ≤ x ∧ x ≤ r.hi) :
    rs.length = 1 := by
  cases h with
  | none =>
      obtain ⟨r, hr, -⟩ := hall 0 (Nat.two_pow_pos width)
      cases hr
  | one => rfl
  | @two r s hr hlow hhigh hs hlt hgap =>
      -- the number after the first interval is in neither
      obtain ⟨t, ht, hlo, hhi⟩ := hall (r.hi + 1) (by omega)
      simp only [List.mem_cons, List.not_mem_nil, or_false] at ht
      rcases ht with rfl | rfl <;> omega

/-- A domain with all members is a single interval without excluded points. -/
theorem Normal.isFull_iff {d : Domain} (hd : d.Normal) (hw : 0 < d.width) :
    d.isFull = true ↔ ∀ x < 2 ^ d.width, d.contains x = true := by
  rw [isFull, beq_iff_eq]
  constructor
  · intro hfull x hx
    rw [hfull]
    exact contains_full hx
  · intro hall
    have hlength : d.ranges.length = 1 :=
      hd.intervals.length_eq_one fun x hx => (contains_iff.mp (hall x hx)).2
    refine hd.eq_of_contains_eq (normal_full d.width) hw rfl (fun x hx => ?_) hlength
    rw [hall x hx, contains_full hx]

end Domain

/-! ### Inferred domains -/

/-- The domain of limits is normal. -/
theorem Limits.normal_domain {l : Limits} (hl : l.InRange) : l.domain.Normal where
  intervals := by
    have hsplit := split_ranges hl
    simp only [domain]
    rcases hranges : l.ranges with _ | ⟨r, _ | ⟨s, _ | ⟨t, rest⟩⟩⟩
    · exact .none
    · rw [hranges] at hsplit
      simp only [IsSplit] at hsplit
      exact .one (by simp only; omega) (by simp only; omega)
    · rw [hranges] at hsplit
      simp only [IsSplit] at hsplit
      refine .two ?_ ?_ ?_ ?_ ?_ ?_ <;> simp only <;> omega
    · rw [hranges] at hsplit
      exact hsplit.elim
  ascending := by
    refine List.pairwise_map.mpr (((pairwise_points l).filter _).imp_of_mem
      fun {x y} hx hy hxy => ?_)
    obtain ⟨-, hx⟩ := List.mem_filter.mp hx
    simp only [List.any_eq_true, Bool.and_eq_true, decide_eq_true_eq] at hx
    obtain ⟨r, hr, hlo, -⟩ := hx
    have hbounds := (split_ranges hl).bounds hl.pos hr
    omega
  inside x hx := by
    obtain ⟨-, r, hr, hlo, hhi⟩ := (mem_excluded_domain hl).mp hx
    have hbounds := (split_ranges hl).bounds hl.pos hr
    refine ⟨_, List.mem_map.mpr ⟨r, hr, rfl⟩, ?_⟩
    simp only
    omega

/-- The domain that is inferred for an input is normal, and of its width. -/
theorem Domain.normal_ofBounds {v : Variable} (hv : 0 < v.width) (bounds : List Bound) :
    (ofBounds v bounds).Normal ∧ (ofBounds v bounds).width = v.width := by
  obtain ⟨l, hl, hrange, hwidth, -⟩ := exists_limits hv bounds
  rw [hl]
  exact ⟨Limits.normal_domain hrange, hwidth⟩

namespace Path

/-- All domains of a path are normal. -/
theorem normal_of_mem_domains {p : Path} (hp : p.WellFormed) {d : Domain} (hd : d ∈ p.domains) :
    d.Normal ∧ 0 < d.width := by
  rw [domains_eq] at hd
  obtain ⟨v, hv, rfl⟩ := List.mem_map.mp hd
  have hpos : 0 < v.width := (hp.input_width hv).1
  obtain ⟨hnormal, hwidth⟩ := Domain.normal_ofBounds hpos p.bounds
  exact ⟨hnormal, hwidth ▸ hpos⟩

/-- **Inferred domains are in normal form.** On an accepted path the domain of an input of width `w`
has at most two intervals of numbers below `2 ^ w`, none of them empty, that ascend and leave out a
number between them. Its excluded points ascend, and each lies strictly inside an interval, so that
no end of an interval is excluded. The domain counts as empty exactly if it contains no number below
`2 ^ w`, and as full exactly if it contains all of them. -/
theorem domains_normal {p : Path} (hp : p.Accepted) {i : Nat} {v : Variable}
    (hv : p.inputs[i]? = some v) :
    ∃ d, p.domains[i]? = some d ∧ d.width = v.width ∧
      d.ranges.length ≤ 2 ∧ (∀ r ∈ d.ranges, r.lo ≤ r.hi ∧ r.hi < 2 ^ v.width) ∧
      d.ranges.Pairwise (fun r s => r.hi + 1 < s.lo) ∧ d.excluded.Pairwise (· < ·) ∧
      (∀ x ∈ d.excluded, ∃ r ∈ d.ranges, r.lo < x ∧ x < r.hi) ∧
      (∀ r ∈ d.ranges, r.lo ∉ d.excluded ∧ r.hi ∉ d.excluded) ∧
      (d.isEmpty = true ↔ ∀ x < 2 ^ v.width, d.contains x = false) ∧
      (d.isFull = true ↔ ∀ x < 2 ^ v.width, d.contains x = true) := by
  have hpos : 0 < v.width := (hp.wellFormed.input_width (List.mem_of_getElem? hv)).1
  obtain ⟨hd, hwidth⟩ := Domain.normal_ofBounds hpos p.bounds
  have hdomain : p.domains[i]? = some (Domain.ofBounds v p.bounds) := by
    rw [domains_eq, List.getElem?_map, hv]
    rfl
  rw [← hwidth] at hpos ⊢
  exact ⟨_, hdomain, rfl, hd.intervals.length_le, fun r hr => hd.intervals.bounds hpos hr,
    hd.intervals.pairwise_gap, hd.ascending, hd.inside, fun r hr => hd.ends_not_excluded hpos hr,
    hd.isEmpty_iff hpos, hd.isFull_iff hpos⟩

/-- A signed bound, a point excluded at an end and one excluded inside. -/
theorem domains_normal_two_intervals :
    let src := "(declare-const x (_ BitVec 4)) (assert (bvsgt x #x8))
      (assert (distinct x #x0)) (assert (distinct x #x4))"
    let d : Domain := ⟨4, [⟨1, 7⟩, ⟨9, 15⟩], [4]⟩
    ∃ p, parse src "p" = .ok p ∧ p.inputs[0]? = some ⟨"x", 4, .input⟩ ∧ p.domains[0]? = some d ∧
      (∀ r ∈ d.ranges, r.lo ∉ d.excluded ∧ r.hi ∉ d.excluded) ∧
      (d.isEmpty = true ↔ ∀ x < 2 ^ 4, d.contains x = false) ∧
      (d.isFull = true ↔ ∀ x < 2 ^ 4, d.contains x = true) := by
  intro src d
  have hfacts : (parse src "p").toOption.any (fun p =>
      p.inputs[0]? == some ⟨"x", 4, .input⟩ && p.domains[0]? == some d) = true := by
    decide +kernel
  obtain ⟨p, hp, hfacts⟩ := exists_of_parse hfacts
  simp only [Bool.and_eq_true, beq_iff_eq] at hfacts
  obtain ⟨hx, hd⟩ := hfacts
  obtain ⟨d', hd', -, -, -, -, -, -, hends, hempty, hfull⟩ := domains_normal (.of_parse hp) hx
  cases hd.symm.trans hd'
  exact ⟨p, hp, hx, hd, hends, hempty, hfull⟩

/-- Inferred domains of one width are equal exactly if they have the same members and the same
number of intervals. -/
theorem domain_eq_iff {p q : Path} (hp : p.Accepted) (hq : q.Accepted) {d e : Domain}
    (hd : d ∈ p.domains) (he : e ∈ q.domains) (hw : d.width = e.width) :
    d = e ↔ (∀ x < 2 ^ d.width, d.contains x = e.contains x) ∧
      d.ranges.length = e.ranges.length := by
  obtain ⟨hdn, hpos⟩ := normal_of_mem_domains hp.wellFormed hd
  obtain ⟨hen, -⟩ := normal_of_mem_domains hq.wellFormed he
  constructor
  · rintro rfl
    exact ⟨fun _ _ => rfl, rfl⟩
  · rintro ⟨hmembers, hlen⟩
    exact hdn.eq_of_contains_eq hen hpos hw hmembers hlen

/-- The numbers without a sign, by a signed and by an unsigned bound, have one domain. -/
theorem domain_eq_iff_nonnegative :
    let signed := "(declare-const x (_ BitVec 8)) (assert (bvsge x #x00))"
    let unsigned := "(declare-const x (_ BitVec 8)) (assert (not (bvuge x #x80)))"
    ∃ p q d e, parse signed "p" = .ok p ∧ parse unsigned "q" = .ok q ∧ d ∈ p.domains ∧
      e ∈ q.domains ∧ d.width = e.width ∧ (∀ n < 2 ^ d.width, d.contains n = e.contains n) ∧
      d = e := by
  intro signed unsigned
  let d : Domain := ⟨8, [⟨0, 127⟩], []⟩
  have hsigned : (parse signed "p").toOption.any (fun p => p.domains == [d]) = true := by
    decide +kernel
  have hunsigned : (parse unsigned "q").toOption.any (fun q => q.domains == [d]) = true := by
    decide +kernel
  obtain ⟨p, hp, hd⟩ := exists_of_parse hsigned
  obtain ⟨q, hq, he⟩ := exists_of_parse hunsigned
  have hd : d ∈ p.domains := by simp [beq_iff_eq.mp hd]
  have he : d ∈ q.domains := by simp [beq_iff_eq.mp he]
  have hmembers : ∀ n < 2 ^ d.width, d.contains n = d.contains n := fun _ _ => rfl
  refine ⟨p, q, d, d, hp, hq, hd, he, rfl, hmembers, ?_⟩
  exact (domain_eq_iff (.of_parse hp) (.of_parse hq) hd he rfl).mpr ⟨hmembers, rfl⟩

/-- The numbers other than the least signed one, by a signed bound and by an exclusion: two domains
with the same members that are not equal. -/
theorem domain_ne_of_same_members :
    let src := "(declare-const x (_ BitVec 8)) (declare-const y (_ BitVec 8))
      (assert (bvsgt x #x80)) (assert (distinct y #x80))"
    ∃ p d e, parse src "p" = .ok p ∧ p.domains = [d, e] ∧ d.width = e.width ∧
      (∀ n < 2 ^ d.width, d.contains n = e.contains n) ∧ d ≠ e := by
  intro src
  let d : Domain := ⟨8, [⟨0, 127⟩, ⟨129, 255⟩], []⟩
  let e : Domain := ⟨8, [⟨0, 255⟩], [128]⟩
  have hfacts : (parse src "p").toOption.any (fun p => p.domains == [d, e]) = true := by
    decide +kernel
  obtain ⟨p, hp, hdomains⟩ := exists_of_parse hfacts
  have hmembers : ∀ n < 2 ^ d.width, d.contains n = e.contains n := by
    decide +kernel
  exact ⟨p, d, e, hp, beq_iff_eq.mp hdomains, rfl, hmembers, by decide⟩

end Path

end Pathwise
