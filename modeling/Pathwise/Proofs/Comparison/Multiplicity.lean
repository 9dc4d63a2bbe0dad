import Pathwise.Proofs.Comparison.AssertionOrder
import Pathwise.Proofs.Profile.Content

/-!
# The least difference of two collections

Transformations are compared as collections: what counts is how often each occurs. If two paths
differ, the report names the least transformation that does not occur equally often.

* **Order** (`Transformation.rank`, `Transformation.rank_lt_iff`): transformations are ordered by
  operator, number of operands, whether there is a constant, and constant. No two have one rank, so
  the order is strict and total.
* **Least differences** (`Transform.IsLeastDifference`, `Transform.find?_eq_some_iff`): the first
  difference in a sorted list is the least one, whatever the order before sorting was.
* **Wording** (`Transform.Names`, `Transform.Names.unique`): a detail names one transformation and
  two numbers, and no others.
* **Paths** (`Path.made`, `Path.perm_made_iff`): a path keeps its transformations sorted, and two
  paths make the same ones equally often just if the sorted lists are the same.

The verdict and the detail of a comparison are what this asks for (`Path.compare_made`).
-/

namespace Pathwise

/-! ### Order -/

namespace Transformation

/-- The place of a transformation among all. -/
def rank (t : Transformation) : Nat ×ₗ Nat ×ₗ Bool ×ₗ Nat :=
  toLex (t.op.number, toLex (t.arity, toLex (t.constant.isSome, t.constant.getD 0)))

/-- No constant comes before any constant, and constants are ordered by size. -/
theorem constantRank_lt_iff {a b : Transformation} :
    a.constantRank < b.constantRank ↔ a.constant.isSome < b.constant.isSome ∨
      a.constant.isSome = b.constant.isSome ∧ a.constant.getD 0 < b.constant.getD 0 := by
  unfold constantRank
  rcases a.constant with _ | m <;> rcases b.constant with _ | n <;> simp

/-- Sorting goes by rank. -/
theorem rank_lt_iff {a b : Transformation} : a.rank < b.rank ↔ a.key < b.key := by
  unfold rank key
  simp only [Prod.Lex.toLex_lt_toLex, constantRank_lt_iff]

/-- The order of places is the order that is used for sorting. -/
theorem rank_le_iff {a b : Transformation} : a.rank ≤ b.rank ↔ a.key ≤ b.key := by
  rw [← not_lt, rank_lt_iff, not_lt]

/-- Different transformations have different places. -/
theorem rank_injective : Function.Injective rank := by
  intro a b h
  exact key_injective (le_antisymm (rank_le_iff.mp h.le) (rank_le_iff.mp h.ge))

end Transformation

/-! ### Least differences -/

namespace Transform

variable {as bs : List Transformation} {t : Transformation}

/-- A transformation does not occur equally often on both sides, and no lesser one does so. -/
def IsLeastDifference (as bs : List Transformation) (t : Transformation) : Prop :=
  as.count t ≠ bs.count t ∧ ∀ u, as.count u ≠ bs.count u → t.rank ≤ u.rank

/-- A least difference is one from both sides. -/
theorem IsLeastDifference.symm (h : IsLeastDifference as bs t) : IsLeastDifference bs as t :=
  ⟨h.1.symm, fun u hu => h.2 u hu.symm⟩

/-- There is at most one least difference. -/
theorem IsLeastDifference.unique {u : Transformation} (ht : IsLeastDifference as bs t)
    (hu : IsLeastDifference as bs u) : t = u :=
  Transformation.rank_injective (le_antisymm (ht.2 u hu.1) (hu.2 t ht.1))

/-- The order of transformations does not matter. -/
theorem IsLeastDifference.of_perm {as' bs' : List Transformation} (ha : as.Perm as')
    (hb : bs.Perm bs') (h : IsLeastDifference as bs t) : IsLeastDifference as' bs' t := by
  unfold IsLeastDifference
  simp only [← ha.count_eq, ← hb.count_eq]
  exact h

/-- What does not occur equally often occurs on some side. -/
theorem mem_or_mem_of_count_ne (h : as.count t ≠ bs.count t) : t ∈ as ∨ t ∈ bs := by
  by_contra hnone
  rw [not_or] at hnone
  rw [List.count_eq_zero_of_not_mem hnone.1, List.count_eq_zero_of_not_mem hnone.2] at h
  exact h rfl

/-- A sorted list whose members are the transformations of both sides. It is what sorting makes of
any listing of them. -/
structure Lists (as bs ts : List Transformation) : Prop where
  sorted : ts.Pairwise fun a b => Transformation.before b a = false
  mem : ∀ t, t ∈ ts ↔ t ∈ as ∨ t ∈ bs

/-- The transformations that occur on either side are listed in order. -/
theorem lists_occurring (as bs : List Transformation) : Lists as bs (occurring as bs) := by
  refine ⟨(Transformation.pairwise_key _).imp ?_, fun _ => mem_occurring⟩
  intro a b hab
  rw [← Bool.not_eq_true', Transformation.not_before_iff]
  exact hab

/-- The first difference that is found in a sorted list is the least. -/
theorem Lists.isLeastDifference {ts : List Transformation} (hts : Lists as bs ts)
    (h : ts.find? (fun u => as.count u != bs.count u) = some t) :
    IsLeastDifference as bs t := by
  obtain ⟨hdiffers, before, after, heq, hbefore⟩ := List.find?_eq_some_iff_append.mp h
  refine ⟨bne_iff_ne.mp hdiffers, ?_⟩
  intro u hu
  have hmem : u ∈ before ++ t :: after := by
    rw [← heq, hts.mem]
    exact mem_or_mem_of_count_ne hu
  rcases List.mem_append.mp hmem with hu' | hu'
  · -- all before it occur equally often
    have hsame := hbefore u hu'
    simp [hu] at hsame
  rcases List.mem_cons.mp hu' with rfl | hu'
  · exact le_refl _
  · have hpairwise := hts.sorted
    rw [heq] at hpairwise
    have hnot := List.rel_of_pairwise_cons (List.pairwise_append.mp hpairwise).2.1 hu'
    rw [← Bool.not_eq_true', Transformation.not_before_iff] at hnot
    exact Transformation.rank_le_iff.mpr hnot

/-- Searching any such list for a difference finds the least one. -/
theorem Lists.find?_eq_some_iff {ts : List Transformation} (hts : Lists as bs ts) :
    ts.find? (fun u => as.count u != bs.count u) = some t ↔ IsLeastDifference as bs t := by
  refine ⟨hts.isLeastDifference, ?_⟩
  intro ht
  have hmem : t ∈ ts := (hts.mem t).mpr (mem_or_mem_of_count_ne ht.1)
  have hfound : (ts.find? fun u => as.count u != bs.count u).isSome = true :=
    List.find?_isSome.mpr ⟨t, hmem, bne_iff_ne.mpr ht.1⟩
  obtain ⟨u, hu⟩ := Option.isSome_iff_exists.mp hfound
  rw [hu, (hts.isLeastDifference hu).unique ht]

/-- Either all transformations occur equally often, or there is a least difference. -/
theorem perm_or_exists_isLeastDifference (as bs : List Transformation) :
    as.Perm bs ∨ ∃ t, IsLeastDifference as bs t := by
  rcases hfirst : firstDifference? as bs with _ | t
  · exact .inl (firstDifference?_eq_none_iff.mp hfirst)
  · exact .inr ⟨t, (lists_occurring as bs).find?_eq_some_iff.mp hfirst⟩

/-! ### Wording -/

/-- The name of a transformation: its operator, the number of operands, and the constant if there is
one. -/
inductive NameOf : Transformation → String → Prop
  | plain (op : Op) (arity : Nat) : NameOf ⟨op, arity, none⟩ (op.name ++ "/" ++ toString arity)
  | constant (op : Op) (arity n : Nat) :
      NameOf ⟨op, arity, some n⟩ (op.name ++ "/" ++ toString arity ++ " const=" ++ toString n)

/-- The words for how often something occurs. -/
inductive Times : Nat → String → Prop
  | absent : Times 0 "absent"
  | once : Times 1 "present once"
  | often (n : Nat) : 1 < n → Times n ("present " ++ toString n ++ " times")

/-- A detail that names a transformation, and how often it occurs on the one side and on the
other. -/
def Names (detail : String) (t : Transformation) (m n : Nat) : Prop :=
  ∃ name first second, NameOf t name ∧ Times m first ∧ Times n second ∧
    detail = name ++ ": " ++ first ++ " vs " ++ second

/-- The text of a transformation is its name. -/
theorem nameOf_iff {name : String} : NameOf t name ↔ name = t.text := by
  constructor
  · intro h
    cases h <;> rfl
  · rintro rfl
    obtain ⟨op, arity, constant⟩ := t
    cases constant with
    | none => exact .plain op arity
    | some n => exact .constant op arity n

/-- A number is put into words as it is in a detail. -/
theorem times_iff {n : Nat} {words : String} : Times n words ↔ words = timesText n := by
  constructor
  · intro h
    cases h with
    | absent => rfl
    | once => rfl
    | often n hn =>
        obtain ⟨n, rfl⟩ := Nat.exists_eq_add_of_le hn
        rw [Nat.add_comm]
        rfl
  · rintro rfl
    rcases n with _ | _ | n
    · exact .absent
    · exact .once
    · exact .often (n + 2) (Nat.one_lt_succ_succ n)

/-- Numbers above 1 are told by their numeral. -/
theorem toList_timesText {n : Nat} (hn : 1 < n) :
    (timesText n).toList = "present ".toList ++ (n.repr.toList ++ " times".toList) := by
  rw [← times_iff.mp (.often n hn)]
  simp [Nat.toString_eq_repr]

/-- Numbers above 1 take more characters than the words for 0 and 1. -/
theorem lt_length_timesText {n : Nat} (hn : 1 < n) : 12 < (timesText n).toList.length := by
  rw [toList_timesText hn]
  simp

/-- The words determine the number. -/
theorem timesText_inj {m n : Nat} (h : timesText m = timesText n) : m = n := by
  have hlength : (timesText m).toList.length = (timesText n).toList.length := by rw [h]
  have hzero : (timesText 0).toList.length = 6 := rfl
  have hone : (timesText 1).toList.length = 12 := rfl
  rcases Nat.lt_or_ge 1 m with hm | hm
  · have hm' := lt_length_timesText hm
    rcases Nat.lt_or_ge 1 n with hn | hn
    · have hlists := congrArg String.toList h
      rw [toList_timesText hm, toList_timesText hn] at hlists
      have hnext : Text.NotNext Char.isDigit " times".toList := Text.notNext_cons (by decide)
      exact (Text.repr_append_inj hnext hnext (List.append_cancel_left hlists)).1
    · interval_cases n <;> omega
  · rcases Nat.lt_or_ge 1 n with hn | hn
    · have hn' := lt_length_timesText hn
      interval_cases m <;> omega
    · interval_cases m <;> interval_cases n <;> omega

/-- The text of a transformation ends before a colon. -/
theorem colon_notMem_text (t : Transformation) : ':' ∉ t.text.toList := by
  have hop (o : Op) : ':' ∉ o.name.toList := by cases o <;> decide
  have hdigits (n : Nat) : ':' ∉ n.repr.toList := Text.notMem_repr (by decide) n
  rw [Profile.toList_transformationText]
  simp only [List.mem_append, List.mem_cons, not_or]
  refine ⟨hop _, by decide, hdigits _, ?_⟩
  cases t.constant with
  | none => exact List.not_mem_nil
  | some n =>
      simp only [Profile.constantText, List.mem_cons, List.mem_append, not_or]
      exact ⟨by decide, by decide, hdigits n⟩

/-- The words for a number end before a `v`. -/
theorem v_notMem_timesText (n : Nat) : 'v' ∉ (timesText n).toList := by
  rcases Nat.lt_or_ge 1 n with hn | hn
  · have hdigits : 'v' ∉ n.repr.toList := Text.notMem_repr (by decide) n
    rw [toList_timesText hn, List.mem_append, List.mem_append, not_or, not_or]
    exact ⟨by decide, hdigits, by decide⟩
  · interval_cases n <;> decide

/-- A detail names one transformation and two numbers. -/
theorem Names.unique {detail : String} {u : Transformation} {m n i j : Nat}
    (h : Names detail t m n) (h' : Names detail u i j) : t = u ∧ m = i ∧ n = j := by
  obtain ⟨_, _, _, hname, hfirst, hsecond, rfl⟩ := h
  obtain ⟨_, _, _, hname', hfirst', hsecond', heq⟩ := h'
  rw [nameOf_iff.mp hname, nameOf_iff.mp hname', times_iff.mp hfirst, times_iff.mp hfirst',
    times_iff.mp hsecond, times_iff.mp hsecond'] at heq
  have hlists (t : Transformation) (m n : Nat) :
      (t.text ++ ": " ++ timesText m ++ " vs " ++ timesText n).toList = t.text.toList ++
        ':' :: ((' ' :: (timesText m).toList ++ [' ']) ++ 'v' :: ("s ".toList ++
          (timesText n).toList)) := by
    simp
  have hblanks (n : Nat) : 'v' ∉ ' ' :: (timesText n).toList ++ [' '] := by
    simp [v_notMem_timesText]
  have heq := congrArg String.toList heq
  rw [hlists, hlists] at heq
  obtain ⟨htext, heq⟩ := Text.append_cons_inj (colon_notMem_text t) (colon_notMem_text u) heq
  obtain ⟨hm, hn⟩ := Text.append_cons_inj (hblanks m) (hblanks i) heq
  have hm : (timesText m).toList = (timesText i).toList :=
    List.append_cancel_right (List.tail_eq_of_cons_eq hm)
  have hn : (timesText n).toList = (timesText j).toList := List.append_cancel_left hn
  exact ⟨Profile.transformationText_inj htext, timesText_inj (String.toList_injective hm),
    timesText_inj (String.toList_injective hn)⟩

/-- A detail can be read in one way. -/
theorem Names.iff {detail : String} {u : Transformation} {m n i j : Nat}
    (h : Names detail t i j) : Names detail u m n ↔ u = t ∧ m = i ∧ n = j := by
  refine ⟨fun h' => h'.unique h, ?_⟩
  rintro ⟨rfl, rfl, rfl⟩
  exact h

/-- How a difference is worded. -/
theorem compare_of_isLeastDifference {a b : Profile}
    (h : IsLeastDifference a.transformations b.transformations t) :
    (compare a b).verdict = .notEquivalent ∧
      Names (compare a b).detail t (a.transformations.count t) (b.transformations.count t) := by
  have hfirst : firstDifference? a.transformations b.transformations = some t :=
    (lists_occurring _ _).find?_eq_some_iff.mpr h
  unfold compare
  simp only [hfirst, true_and]
  exact ⟨_, _, _, nameOf_iff.mpr rfl, times_iff.mpr rfl, times_iff.mpr rfl, rfl⟩

end Transform

/-! ### Paths -/

namespace Path

/-- The transformations that a path makes, constraint after constraint. -/
def made (p : Path) : List Transformation :=
  (p.bucket .transform).flatMap fun c => Transformation.ofTerm c.term

/-- The transformations of a path are what its constraints make, sorted. -/
theorem transformations_perm_made (p : Path) : p.transformations.Perm p.made :=
  List.mergeSort_perm _ _

/-- Paths make the same transformations equally often just if the sorted lists are equal. -/
theorem perm_made_iff {p q : Path} :
    p.made.Perm q.made ↔ p.transformations = q.transformations := by
  constructor
  · intro h
    exact Transformation.mergeSort_eq_of_perm h
  · intro h
    have hp := p.transformations_perm_made
    rw [h] at hp
    exact hp.symm.trans q.transformations_perm_made

/-- Comparing the transformations of two paths says whether they make the same ones equally often,
which is whether the sorted lists are the same. Otherwise the detail names the least one that they
do not make equally often, and how often each makes it; it can be read in no other way. It is what a
search finds in any sorted list of what occurs. Comparing the paths the other way names the same one
with the numbers exchanged. -/
theorem compare_made (p q : Path) :
    let pq := Transform.compare (.ofPath p) (.ofPath q)
    let qp := Transform.compare (.ofPath q) (.ofPath p)
    (pq.verdict = .equivalent ↔ p.made.Perm q.made) ∧
    (p.made.Perm q.made ↔ p.transformations = q.transformations) ∧
    (p.made.Perm q.made ∨ ∃ t,
      Transform.IsLeastDifference p.made q.made t ∧
      (∀ ts, Transform.Lists p.made q.made ts →
        ts.find? (fun u => p.made.count u != q.made.count u) = some t) ∧
      pq.verdict = .notEquivalent ∧
      (∀ u m n, Transform.Names pq.detail u m n ↔
        u = t ∧ m = p.made.count t ∧ n = q.made.count t) ∧
      qp.verdict = .notEquivalent ∧
      ∀ u m n, Transform.Names qp.detail u m n ↔
        u = t ∧ m = q.made.count t ∧ n = p.made.count t) := by
  intro pq qp
  have hp := p.transformations_perm_made
  have hq := q.transformations_perm_made
  have hdecides : pq.Decides (p.transformations.Perm q.transformations) :=
    Transform.decides_compare (.ofPath p) (.ofPath q)
  have hperm : p.transformations.Perm q.transformations ↔ p.made.Perm q.made :=
    ⟨fun h => hp.symm.trans (h.trans hq), fun h => hp.trans (h.trans hq.symm)⟩
  refine ⟨?_, perm_made_iff, ?_⟩
  · rw [← hperm]
    refine ⟨fun hverdict => ?_, fun h => (hdecides.agree h).1⟩
    by_contra hne
    rw [(hdecides.differ hne).1] at hverdict
    exact Verdict.noConfusion hverdict
  · rcases Transform.perm_or_exists_isLeastDifference p.made q.made with hsame | ⟨t, ht⟩
    · exact .inl hsame
    · have hpq : pq.verdict = _ ∧ Transform.Names pq.detail t _ _ :=
        Transform.compare_of_isLeastDifference (ht.of_perm hp.symm hq.symm)
      have hqp : qp.verdict = _ ∧ Transform.Names qp.detail t _ _ :=
        Transform.compare_of_isLeastDifference (ht.symm.of_perm hq.symm hp.symm)
      have hcount : (Profile.ofPath p).transformations.count t = p.made.count t := hp.count_eq t
      have hcount' : (Profile.ofPath q).transformations.count t = q.made.count t := hq.count_eq t
      rw [hcount, hcount'] at hpq hqp
      exact .inr ⟨t, ht, fun ts hts => hts.find?_eq_some_iff.mpr ht, hpq.1,
        fun _ _ _ => hpq.2.iff, hqp.1, fun _ _ _ => hqp.2.iff⟩

end Path

end Pathwise
