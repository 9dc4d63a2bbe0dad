import Mathlib.Algebra.BigOperators.Group.List.Basic
import Mathlib.Algebra.GroupWithZero.Nat
import Mathlib.Data.List.Forall2
import Mathlib.Data.List.Nodup
import Pathwise.Oracle.Choices

/-!
# Which samples are taken

A sample chooses an index below the number of candidates for each symbol. This file says which
choices the sampling oracle makes, how many, and in which order, for any generator of random
numbers.

* **The odometer** (`Sampling.map_numberOf_countUp`): read as numbers whose digits are the indices,
  the lowest first, the choices that it shows count up by one, to the product of the counts. A carry
  is a carry of that number.
* **The product** (`Sampling.productUpTo_le_iff`): if no product that is taken leaves 63 bits, the
  loop with its early end compares the product of all counts with the limit.
* **The loops** (`Sampling.toList_walk`, `Sampling.exists_toList_fill`): what is walked along or
  drawn at random are indices below the counts, too.
* **Samples** (`Sampling.choices_by_limit`): the product of the counts decides between the two.
-/

namespace Pathwise.Sampling

variable {counts choice choice' : List Nat} {n limit : Nat}

/-! ### Numbers of choices -/

/-- The number of a choice. Its digits are the indices, in places of which each holds as many digits
as there are candidates, and the first index is the lowest digit. -/
def numberOf : List Nat → List Nat → Nat
  | n :: counts, i :: choice => i + n * numberOf counts choice
  | _, _ => 0

/-- The number of a choice is below the product of the counts. -/
theorem numberOf_lt_prod (h : List.Forall₂ (· < ·) choice counts) :
    numberOf counts choice < counts.prod := by
  induction h with
  | nil => exact Nat.one_pos
  | @cons i n choice counts hi _ ih =>
      rw [numberOf, List.prod_cons]
      calc i + n * numberOf counts choice
        _ < n * 1 + n * numberOf counts choice := by omega
        _ = n * (1 + numberOf counts choice) := (Nat.mul_add ..).symm
        _ ≤ n * counts.prod := Nat.mul_le_mul_left n (by omega)

/-- Different choices have different numbers. -/
theorem numberOf_inj (h : List.Forall₂ (· < ·) choice counts)
    (h' : List.Forall₂ (· < ·) choice' counts)
    (heq : numberOf counts choice = numberOf counts choice') : choice = choice' := by
  induction h generalizing choice' with
  | nil => exact (List.forall₂_nil_right_iff.mp h').symm
  | @cons i n choice counts hi _ ih =>
      obtain ⟨i', rest, hi', hrest, rfl⟩ := List.forall₂_cons_right_iff.mp h'
      simp only [numberOf] at heq
      have hdigit : i = i' := by
        have hmod := congrArg (· % n) heq
        simpa [Nat.mod_eq_of_lt hi, Nat.mod_eq_of_lt hi'] using hmod
      subst hdigit
      have hpos : 0 < n := by omega
      rw [ih hrest (Nat.eq_of_mul_eq_mul_left hpos (by omega))]

/-! ### The odometer -/

/-- A step of the odometer shows a choice again, with the next number if the last wheel did not come
back to 0. If it did, the number was the greatest one. -/
theorem tick_spec (h : List.Forall₂ (· < ·) choice counts) :
    List.Forall₂ (· < ·) (tick counts choice).1 counts ∧
      ((tick counts choice).2 = false →
        numberOf counts (tick counts choice).1 = numberOf counts choice + 1) ∧
      ((tick counts choice).2 = true →
        numberOf counts (tick counts choice).1 = 0 ∧ numberOf counts choice + 1 = counts.prod) := by
  induction h with
  | nil => simp [tick, numberOf]
  | @cons i n choice counts hi hchoice ih =>
      obtain ⟨hbelow, hnext, hover⟩ := ih
      rw [tick]
      by_cases hwheel : i + 1 < n
      · rw [if_pos hwheel]
        refine ⟨.cons hwheel hchoice, fun _ => ?_, fun h => by cases h⟩
        simp only [numberOf]
        omega
      · -- the wheel was at its last index, so that coming back to 0 carries one
        rw [if_neg hwheel]
        have hlast : n = i + 1 := by omega
        refine ⟨.cons (by omega) hbelow, fun h => ?_, fun h => ?_⟩
        · simp only [numberOf, hnext h, Nat.mul_add]
          omega
        · obtain ⟨hzero, hprod⟩ := hover h
          simp only [numberOf, hzero, List.prod_cons, ← hprod, Nat.mul_add]
          omega

/-- All that the odometer shows are choices. -/
theorem forall₂_of_mem_countUp {shown : List Nat} (h : List.Forall₂ (· < ·) choice counts)
    (hshown : shown ∈ countUp counts choice) : List.Forall₂ (· < ·) shown counts := by
  fun_induction countUp counts choice with
  | case1 choice _ ih =>
      rcases List.mem_cons.mp hshown with rfl | hshown
      · exact h
      · exact ih (tick_spec h).1 hshown
  | case2 choice => rwa [List.mem_singleton.mp hshown]

/-- The choices that the odometer shows are numbered one after the other, up to the product of the
counts. -/
theorem map_numberOf_countUp (h : List.Forall₂ (· < ·) choice counts) :
    (countUp counts choice).map (numberOf counts) =
      List.range' (numberOf counts choice) (counts.prod - numberOf counts choice) := by
  have hlt := numberOf_lt_prod h
  fun_induction countUp counts choice with
  | case1 choice hgoes ih =>
      obtain ⟨hbelow, hnext, -⟩ := tick_spec h
      have hsteps : counts.prod - numberOf counts choice
          = counts.prod - (numberOf counts choice + 1) + 1 := by omega
      rw [List.map_cons, ih hbelow (numberOf_lt_prod hbelow), hnext hgoes, hsteps, List.range'_succ]
  | case2 choice hover =>
      obtain ⟨-, hprod⟩ := (tick_spec h).2.2 (by simpa using hover)
      rw [← hprod, Nat.add_sub_cancel_left]
      rfl

/-- The choice with which the odometer starts. -/
theorem forall₂_zeros (hcounts : ∀ n ∈ counts, 0 < n) :
    List.Forall₂ (· < ·) (counts.map fun _ => 0) counts := by
  rw [List.forall₂_map_left_iff, List.forall₂_same]
  exact hcounts

/-- The odometer starts with the number 0. -/
theorem numberOf_zeros (counts : List Nat) : numberOf counts (counts.map fun _ => 0) = 0 := by
  induction counts with
  | nil => rfl
  | cons n counts ih => rw [List.map_cons, numberOf, ih, Nat.mul_zero]

/-- There are choices, since there are candidates for each symbol. -/
theorem prod_pos (hcounts : ∀ n ∈ counts, 0 < n) : 0 < counts.prod :=
  Nat.zero_lt_of_lt (numberOf_lt_prod (forall₂_zeros hcounts))

/-- From the start, the odometer shows the numbers below the product of the counts. -/
theorem map_numberOf_countUp_zeros (hcounts : ∀ n ∈ counts, 0 < n) :
    (countUp counts (counts.map fun _ => 0)).map (numberOf counts) = List.range counts.prod := by
  rw [map_numberOf_countUp (forall₂_zeros hcounts), numberOf_zeros, Nat.sub_zero,
    List.range_eq_range']

/-- In a list of choices that are numbered from 0 to the product of the counts, each choice has one
place, which is its number. -/
theorem getElem?_iff_of_numbers {shown : List (List Nat)}
    (hshown : ∀ c ∈ shown, List.Forall₂ (· < ·) c counts)
    (hnumbers : shown.map (numberOf counts) = List.range counts.prod) {k : Nat} :
    shown[k]? = some choice ↔
      List.Forall₂ (· < ·) choice counts ∧ numberOf counts choice = k := by
  have hplace := congrArg (·[k]?) hnumbers
  simp only [List.getElem?_map] at hplace
  constructor
  · intro h
    refine ⟨hshown choice (List.mem_of_getElem? h), ?_⟩
    rw [h] at hplace
    obtain ⟨hk, hnumber⟩ := List.getElem?_eq_some_iff.mp hplace.symm
    rw [List.getElem_range] at hnumber
    exact hnumber.symm
  · rintro ⟨hbelow, rfl⟩
    rw [List.getElem?_range (numberOf_lt_prod hbelow)] at hplace
    obtain ⟨c, hc, hnumber⟩ := Option.map_eq_some_iff.mp hplace
    rw [hc, numberOf_inj (hshown c (List.mem_of_getElem? hc)) hbelow hnumber]

/-- Each choice has one place in what the odometer shows, which is its number. -/
theorem getElem?_countUp_iff (hcounts : ∀ n ∈ counts, 0 < n) {k : Nat} :
    (countUp counts (counts.map fun _ => 0))[k]? = some choice ↔
      List.Forall₂ (· < ·) choice counts ∧ numberOf counts choice = k :=
  getElem?_iff_of_numbers (fun _ => forall₂_of_mem_countUp (forall₂_zeros hcounts))
    (map_numberOf_countUp_zeros hcounts)

/-- All choices of an index below each of the counts, the first index varying fastest. -/
def allChoices : List Nat → List (List Nat)
  | [] => [[]]
  | n :: ns => (allChoices ns).flatMap fun rest => (List.range n).map (· :: rest)

/-- What is listed are the choices. -/
theorem mem_allChoices_iff : choice ∈ allChoices counts ↔ List.Forall₂ (· < ·) choice counts := by
  induction counts generalizing choice with
  | nil => simp [allChoices]
  | cons n counts ih =>
      simp only [allChoices, List.mem_flatMap, List.mem_map, List.mem_range,
        List.forall₂_cons_right_iff, ih]
      constructor
      · rintro ⟨rest, hrest, i, hi, rfl⟩
        exact ⟨i, rest, hi, hrest, rfl⟩
      · rintro ⟨i, rest, hi, hrest, rfl⟩
        exact ⟨rest, hrest, i, hi, rfl⟩

/-- Counting up `n` digits at a time. -/
theorem flatMap_range (m n : Nat) :
    (List.range m).flatMap (fun q => (List.range n).map (· + n * q)) = List.range (n * m) := by
  induction m with
  | zero => rfl
  | succ m ih =>
      have hlast : (List.range n).map (· + n * m) = (List.range n).map (n * m + ·) :=
        List.map_congr_left fun i _ => Nat.add_comm i (n * m)
      rw [List.range_succ, List.flatMap_append, List.flatMap_singleton, ih, hlast, Nat.mul_succ,
        List.range_add]

/-- The listed choices have the numbers below the product of the counts, in their order. -/
theorem map_numberOf_allChoices (counts : List Nat) :
    (allChoices counts).map (numberOf counts) = List.range counts.prod := by
  induction counts with
  | nil => rfl
  | cons n counts ih =>
      rw [List.prod_cons, ← flatMap_range, ← ih, List.flatMap_map, allChoices, List.map_flatMap]
      refine List.flatMap_congr fun rest _ => ?_
      rw [List.map_map]
      rfl

/-- The odometer shows all choices, in the order in which they are listed. -/
theorem countUp_eq_allChoices (hcounts : ∀ n ∈ counts, 0 < n) :
    countUp counts (counts.map fun _ => 0) = allChoices counts := by
  refine List.ext_getElem? fun k => Option.ext fun choice => ?_
  rw [getElem?_countUp_iff hcounts,
    getElem?_iff_of_numbers (fun _ => mem_allChoices_iff.mp) (map_numberOf_allChoices counts)]

/-! ### The product -/

/-- A signed word of 64 bits is below `2 ^ 63`. -/
theorem int64_lt (x : Int) : int64 x < 2 ^ 63 := by
  have h := Int.bmod_lt (x := x) (m := 2 ^ 64) (by decide)
  unfold int64
  omega

/-- A signed word of 64 bits holds what is between `-2 ^ 63` and `2 ^ 63`. -/
theorem int64_eq {x : Int} (hlow : -2 ^ 63 ≤ x) (hhigh : x < 2 ^ 63) : int64 x = x := by
  refine Int.bmod_eq_of_le_mul_two ?_ ?_ <;> omega

/-- A product that fits into a signed word is what the word holds. -/
theorem int64_mul {total : Nat} (h : total * n < 2 ^ 63) :
    int64 ((total : Int) * n) = (total * n : Nat) := by
  rw [← Int.natCast_mul]
  exact int64_eq (by omega) (by exact_mod_cast h)

/-- Beyond that, the product is one of words: that of eleven 64s, 0. -/
example : productUpTo (2 ^ 62) 1 (List.replicate 11 64) = 0 := by decide

/-- No word is above a limit of 64 bits. -/
theorem productUpTo_le_of_two_pow_le (hlimit : 2 ^ 63 ≤ limit) {total : Int}
    (htotal : total ≤ limit) : productUpTo limit total counts ≤ limit := by
  induction counts generalizing total with
  | nil => exact htotal
  | cons n counts ih =>
      have hword := int64_lt (total * n)
      have hnext : int64 (total * n) ≤ limit := by omega
      rw [productUpTo, if_neg (by omega)]
      exact ih hnext

/-- If the product of all counts is not above the limit, the loop says so, however many bits the
limit has. -/
theorem productUpTo_le_of_prod_le (hcounts : ∀ n ∈ counts, 0 < n) {total : Nat}
    (h : total * counts.prod ≤ limit) : productUpTo limit total counts ≤ limit := by
  induction counts generalizing total with
  | nil => simpa [productUpTo] using h
  | cons n counts ih =>
      obtain ⟨hn, hcounts⟩ := List.forall_mem_cons.mp hcounts
      rw [List.prod_cons, ← Nat.mul_assoc] at h
      have hle : total * n ≤ limit :=
        Nat.le_trans (Nat.le_mul_of_pos_right _ (prod_pos hcounts)) h
      by_cases hlimit : 2 ^ 63 ≤ limit
      · have htotal : total ≤ limit := Nat.le_trans (Nat.le_mul_of_pos_right _ hn) hle
        exact productUpTo_le_of_two_pow_le hlimit (Int.ofNat_le.mpr htotal)
      · rw [productUpTo, int64_mul (by omega), if_neg (by omega)]
        exact ih hcounts h

/-! ### The loops -/

/-- What is drawn is a choice, whatever the generator. -/
theorem forall₂_draw (rng : Generator) (g : rng.State) (hcounts : ∀ n ∈ counts, 0 < n) :
    List.Forall₂ (· < ·) (draw rng g counts).1 counts := by
  induction counts generalizing g with
  | nil => exact .nil
  | cons n counts ih =>
      obtain ⟨hn, hcounts⟩ := List.forall_mem_cons.mp hcounts
      exact .cons (rng.below_lt g n hn) (ih (rng.below g n).2 hcounts)

/-- What is walked along are choices. -/
theorem forall₂_abreast (hcounts : ∀ n ∈ counts, 0 < n) (j : Nat) :
    List.Forall₂ (· < ·) (abreast counts j) counts := by
  rw [abreast, List.forall₂_map_left_iff, List.forall₂_same]
  exact fun n hn => Nat.mod_lt j (hcounts n hn)

/-- The walk adds a choice for each place up to the end of the longest list, as long as there is
room. -/
theorem toList_walk (counts : List Nat) (longest limit j : Nat) (out : Array (List Nat)) :
    (walk counts longest limit j out).toList = out.toList ++
      (List.range' j (min (longest - j) (limit - out.size))).map (abreast counts) := by
  fun_induction walk counts longest limit j out with
  | case1 j out h ih =>
      have hsteps : min (longest - j) (limit - out.size)
          = min (longest - (j + 1)) (limit - (out.size + 1)) + 1 := by omega
      rw [ih, Array.size_push, Array.toList_push, hsteps, List.range'_succ, List.map_cons,
        List.append_assoc, List.singleton_append]
  | case2 j out h =>
      have hsteps : min (longest - j) (limit - out.size) = 0 := by omega
      rw [hsteps, List.range'_zero, List.map_nil, List.append_nil]

/-- Filling up adds choices, as many as there is room for. -/
theorem exists_toList_fill (rng : Generator) (limit : Nat) (hcounts : ∀ n ∈ counts, 0 < n)
    (g : rng.State) (out : Array (List Nat)) :
    ∃ drawn, (fill rng counts limit g out).toList = out.toList ++ drawn ∧
      drawn.length = limit - out.size ∧ ∀ c ∈ drawn, List.Forall₂ (· < ·) c counts := by
  fun_induction fill rng counts limit g out with
  | case1 g out hroom choice g' hdraw ih =>
      obtain ⟨drawn, hlist, hlength, hdrawn⟩ := ih
      have hchoice : (draw rng g counts).1 = choice := by rw [hdraw]
      refine ⟨choice :: drawn, ?_, ?_, ?_⟩
      · rw [hlist, Array.toList_push, List.append_assoc, List.singleton_append]
      · rw [List.length_cons, hlength, Array.size_push]
        omega
      · rw [List.forall_mem_cons, ← hchoice]
        exact ⟨forall₂_draw rng g hcounts, hdrawn⟩
  | case2 g out hfull =>
      exact ⟨[], by simp, by simp; omega, by simp⟩

/-- If there are no more choices than samples are allowed, all choices are taken. -/
theorem choices_eq_allChoices (rng : Generator) (hcounts : ∀ n ∈ counts, 0 < n)
    (hfew : counts.prod ≤ limit) : choices rng counts limit = allChoices counts := by
  have hproduct : productUpTo limit ((1 : Nat) : Int) counts ≤ limit :=
    productUpTo_le_of_prod_le hcounts (by rwa [Nat.one_mul])
  rw [Int.natCast_one] at hproduct
  cases counts with
  | nil => rfl
  | cons n counts =>
      rw [choices, if_neg (by simp), if_pos hproduct, countUp_eq_allChoices hcounts]

/-- Otherwise a walk along all lists side by side comes first, and choices at random follow. -/
theorem exists_choices_eq_walk (rng : Generator) (hcounts : ∀ n ∈ counts, 0 < n)
    (hmany : ¬ productUpTo limit 1 counts ≤ limit) (hne : counts ≠ []) :
    ∃ drawn, choices rng counts limit =
        (List.range (min (counts.foldl max 0) limit)).map (abreast counts) ++ drawn ∧
      drawn.length = limit - min (counts.foldl max 0) limit ∧
      ∀ c ∈ drawn, List.Forall₂ (· < ·) c counts := by
  have hempty : ¬ counts.isEmpty = true := by simpa using hne
  obtain ⟨drawn, hlist, hlength, hdrawn⟩ := exists_toList_fill rng limit hcounts
    (rng.seeded (seed counts.length limit)) (walk counts (counts.foldl max 0) limit 0 #[])
  have hwalk := toList_walk counts (counts.foldl max 0) limit 0 #[]
  simp only [List.nil_append, Nat.sub_zero, Array.size_empty, ← List.range_eq_range'] at hwalk
  refine ⟨drawn, ?_, ?_, hdrawn⟩
  · rw [choices, if_neg hempty, if_neg hmany, hlist, hwalk]
  · rw [hlength, ← Array.length_toList, hwalk, List.length_map, List.length_range]

/-- All samples are choices, whatever the limit and the generator. -/
theorem forall₂_of_mem_choices {rng : Generator} (hcounts : ∀ n ∈ counts, 0 < n)
    (h : choice ∈ choices rng counts limit) : List.Forall₂ (· < ·) choice counts := by
  by_cases hne : counts = []
  · subst hne
    rw [List.mem_singleton.mp h]
    exact .nil
  by_cases hfew : productUpTo limit 1 counts ≤ limit
  · rw [choices, if_neg (by simpa using hne), if_pos hfew] at h
    exact forall₂_of_mem_countUp (forall₂_zeros hcounts) h
  · obtain ⟨drawn, hlist, -, hdrawn⟩ := exists_choices_eq_walk rng hcounts hfew hne
    rw [hlist] at h
    rcases List.mem_append.mp h with hwalked | h
    · obtain ⟨j, -, rfl⟩ := List.mem_map.mp hwalked
      exact forall₂_abreast hcounts j
    · exact hdrawn choice h

end Pathwise.Sampling
