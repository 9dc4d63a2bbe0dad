import Mathlib.Data.Nat.Digits.Lemmas
import Mathlib.Tactic.IntervalCases
import Pathwise.Text.Numeral

/-!
# What numerals spell

Readers of digits compute a number from left to right. This file says which texts they accept and
which number that is, in terms of the places of the digits.

* **Digits** (`Text.IsDigitOf`): the character for a digit, letters in either case.
* **Numbers** (`Text.Spells`): one or more digits, and the sum of the digits times the powers of the
  base. A number of `k` digits is below the `k`th power of the base (`Text.Spells.lt`).
* **Integers** (`Text.SpellsInt`): the same after at most one sign.

Readers accept exactly these texts (`Text.digits?_eq_some_iff`, `Text.signed?_eq_some_iff`), and
what is written is read back (`Text.digits?_toDigits`, `Text.signed?_repr`), also with zeros in
front (`Text.moreDigits?_padLeft`).
-/

namespace Pathwise.Text

/-- A character stands for a digit of a base, letters in either case. -/
def IsDigitOf (base : Nat) (c : Char) (d : Nat) : Prop :=
  d < base ∧ (c = d.digitChar ∨ c = d.digitChar.toUpper)

/-- A text spells a number by its digits, the highest first. -/
def Spells (base : Nat) (cs : List Char) (n : Nat) : Prop :=
  ∃ ds, ds ≠ [] ∧ List.Forall₂ (IsDigitOf base) cs ds ∧ n = Nat.ofDigits base ds.reverse

/-- A text spells an integer by a sign and digits. -/
inductive SignedDigits (base : Nat) : List Char → Int → Prop
  | minus {cs : List Char} {n : Nat} (h : Spells base cs n) : SignedDigits base ('-' :: cs) (-n)
  | plus {cs : List Char} {n : Nat} (h : Spells base cs n) : SignedDigits base ('+' :: cs) n

/-- A text spells an integer by at most one sign and digits. -/
def SpellsInt (base : Nat) (cs : List Char) (i : Int) : Prop :=
  (∃ n : Nat, Spells base cs n ∧ i = n) ∨ SignedDigits base cs i

variable {base : Nat} {cs : List Char}

/-! ### Digits -/

/-- A digit of a smaller base is a hexadecimal digit below that base. -/
theorem digit?_eq_some_iff_lt (hbase : base ≤ 16) {c : Char} {d : Nat} :
    digit? base c = some d ↔ d < base ∧ digit? 16 c = some d := by
  simp only [digit?, Option.filter_eq_some_iff, decide_eq_true_eq]
  constructor
  · rintro ⟨hvalue, hlt⟩
    exact ⟨hlt, hvalue, by omega⟩
  · rintro ⟨hlt, hvalue, -⟩
    exact ⟨hvalue, hlt⟩

/-- The character of a digit is read as the digit. -/
theorem digit?_digitChar {d : Nat} (hd : d < 16) : digit? 16 d.digitChar = some d := by
  interval_cases d <;> rfl

/-- The capital letter of a digit is read as the digit. -/
theorem digit?_toUpper {d : Nat} (hd : d < 16) : digit? 16 d.digitChar.toUpper = some d := by
  interval_cases d <;> rfl

/-- The code points of digits. -/
theorem toNat_digitChar {d : Nat} (hd : d < 16) :
    d.digitChar.toNat = if d < 10 then 48 + d else 87 + d := by
  interval_cases d <;> rfl

/-- The code points of digits in capital letters. -/
theorem toNat_toUpper {d : Nat} (hd : d < 16) :
    d.digitChar.toUpper.toNat = if d < 10 then 48 + d else 55 + d := by
  interval_cases d <;> rfl

/-- A character is read as a digit just if it spells one. -/
theorem digit?_eq_some_iff (hbase : base ≤ 16) {c : Char} {d : Nat} :
    digit? base c = some d ↔ IsDigitOf base c d := by
  rw [digit?_eq_some_iff_lt hbase, IsDigitOf]
  refine and_congr_right fun hlt => ⟨fun h => ?_, ?_⟩
  · have hd : d < 16 := by omega
    have hle (a b : Char) : a ≤ b ↔ a.toNat ≤ b.toNat := Iff.rfl
    simp only [digit?, Option.filter_eq_some_iff, hle, Char.reduceToNat] at h
    rw [← Char.toNat_inj, ← Char.toNat_inj, toNat_digitChar hd, toNat_toUpper hd]
    grind
  · rintro (rfl | rfl)
    · exact digit?_digitChar (by omega)
    · exact digit?_toUpper (by omega)

/-- The digits of base ten are those of the core library. -/
theorem isDigit_eq : isDigit = Char.isDigit := by
  funext c
  have hle (a b : Char) : a ≤ b ↔ a.toNat ≤ b.toNat := Iff.rfl
  have hlower (n : UInt32) : c.val ≥ n ↔ n.toNat ≤ c.toNat := Iff.rfl
  have hupper (n : UInt32) : c.val ≤ n ↔ c.toNat ≤ n.toNat := Iff.rfl
  rw [Bool.eq_iff_iff]
  simp only [isDigit, digit?, Option.isSome_filter, Char.isDigit, hle, hlower, hupper,
    Char.reduceToNat, Bool.and_eq_true, decide_eq_true_eq]
  grind

/-! ### Numbers -/

/-- The digits that are read go below the number read before. The induction is over the text, and
the number read before grows with it. -/
theorem moreDigits?_eq_some_iff (hbase : base ≤ 16) {acc n : Nat} :
    moreDigits? base acc cs = some n ↔
      ∃ ds, List.Forall₂ (IsDigitOf base) cs ds ∧
        n = acc * base ^ cs.length + Nat.ofDigits base ds.reverse := by
  induction cs generalizing acc with
  | nil => simp [moreDigits?, eq_comm]
  | cons c cs ih =>
      have hplaces (d : Nat) {ds : List Nat} (hds : ds.length = cs.length) :
          acc * base ^ (cs.length + 1) + Nat.ofDigits base (d :: ds).reverse =
            (acc * base + d) * base ^ cs.length + Nat.ofDigits base ds.reverse := by
        rw [List.reverse_cons, Nat.ofDigits_append, Nat.ofDigits_singleton, List.length_reverse,
          hds]
        ring
      constructor
      · intro h
        cases hd : digit? base c with
        | none => simp [moreDigits?, hd] at h
        | some d =>
            simp only [moreDigits?, hd] at h
            obtain ⟨ds, hds, rfl⟩ := ih.mp h
            refine ⟨d :: ds, .cons ((digit?_eq_some_iff hbase).mp hd) hds, ?_⟩
            rw [List.length_cons, hplaces d hds.length_eq.symm]
      · rintro ⟨_, hcs, rfl⟩
        obtain ⟨d, ds, hd, hds, rfl⟩ := List.forall₂_cons_left_iff.mp hcs
        simp only [moreDigits?, (digit?_eq_some_iff hbase).mpr hd]
        exact ih.mpr ⟨ds, hds, hplaces d hds.length_eq.symm⟩

/-- Digits are read as the number that they spell. -/
theorem digits?_eq_some_iff (hbase : base ≤ 16) {n : Nat} :
    digits? base cs = some n ↔ Spells base cs n := by
  have hempty {ds : List Nat} (hds : List.Forall₂ (IsDigitOf base) cs ds) :
      ds ≠ [] ↔ cs.isEmpty = false := by
    cases hds <;> simp
  rw [digits?]
  split
  · rename_i hcs
    constructor
    · rintro ⟨⟩
    · rintro ⟨ds, hne, hds, -⟩
      rw [(hempty hds).mp hne] at hcs
      cases hcs
  · rename_i hcs
    rw [moreDigits?_eq_some_iff hbase, Nat.zero_mul]
    simp only [Nat.zero_add]
    constructor
    · rintro ⟨ds, hds, hn⟩
      exact ⟨ds, (hempty hds).mpr (by simpa using hcs), hds, hn⟩
    · rintro ⟨ds, -, hds, hn⟩
      exact ⟨ds, hds, hn⟩

/-- Digits are smaller than the base. -/
theorem isDigitOf_lt {ds : List Nat} (h : List.Forall₂ (IsDigitOf base) cs ds) :
    ∀ d ∈ ds, d < base := by
  induction h with
  | nil => simp
  | cons hd _ ih => exact List.forall_mem_cons.mpr ⟨hd.1, ih⟩

/-- A number is below the power of its base that its digits count. -/
theorem Spells.lt {n : Nat} (h : Spells base cs n) (hbase : 1 < base) : n < base ^ cs.length := by
  obtain ⟨ds, -, hds, rfl⟩ := h
  have hlt := Nat.ofDigits_lt_base_pow_length (l := ds.reverse) hbase fun d hd =>
    isDigitOf_lt hds d (List.mem_reverse.mp hd)
  rwa [List.length_reverse, ← hds.length_eq] at hlt

/-- A number has at least one digit. -/
theorem Spells.ne_nil {n : Nat} (h : Spells base cs n) : cs ≠ [] := by
  obtain ⟨ds, hne, hds, -⟩ := h
  rintro rfl
  cases hds
  exact hne rfl

/-- The characters of a number stand for digits. -/
theorem Spells.isDigitOf {n : Nat} (h : Spells base cs n) {c : Char} (hc : c ∈ cs) :
    ∃ d, IsDigitOf base c d := by
  obtain ⟨ds, -, hds, -⟩ := h
  induction hds with
  | nil => cases hc
  | cons hd _ ih =>
      rcases List.mem_cons.mp hc with rfl | hc
      · exact ⟨_, hd⟩
      · exact ih hc

/-- There is nothing but digits in a number. -/
theorem Spells.notMem {n : Nat} (h : Spells base cs n) (hbase : base ≤ 16) {c : Char}
    (hc : digit? base c = none) : c ∉ cs := by
  intro hmem
  obtain ⟨d, hd⟩ := h.isDigitOf hmem
  rw [(digit?_eq_some_iff hbase).mpr hd] at hc
  cases hc

/-! ### Integers -/

/-- After a minus sign digits are read, and the number is negated. -/
theorem signed?_minus (base : Nat) (cs : List Char) :
    signed? base ('-' :: cs) = (digits? base cs).map fun n : Nat => -(n : Int) := by
  rw [signed?]
  cases digits? base cs <;> rfl

/-- After a plus sign digits are read. -/
theorem signed?_plus (base : Nat) (cs : List Char) :
    signed? base ('+' :: cs) = (digits? base cs).map fun n : Nat => (n : Int) := by
  rw [signed?]
  cases digits? base cs <;> rfl

/-- Without a sign all must be digits. -/
theorem signed?_plain (base : Nat) (hminus : ∀ ds, cs ≠ '-' :: ds) (hplus : ∀ ds, cs ≠ '+' :: ds) :
    signed? base cs = (digits? base cs).map fun n : Nat => (n : Int) := by
  rw [signed?]
  · cases digits? base cs <;> rfl
  · exact hminus
  · exact hplus

/-- A spelling that begins with a minus sign spells the negative of what follows. -/
theorem spellsInt_minus_iff (hbase : base ≤ 16) {i : Int} :
    SpellsInt base ('-' :: cs) i ↔ ∃ n : Nat, Spells base cs n ∧ i = -n := by
  constructor
  · rintro (⟨n, hn, -⟩ | hi)
    · exact absurd List.mem_cons_self (hn.notMem hbase rfl)
    · cases hi with
      | minus hn => exact ⟨_, hn, rfl⟩
  · rintro ⟨n, hn, rfl⟩
    exact .inr (.minus hn)

/-- A spelling that begins with a plus sign spells what follows. -/
theorem spellsInt_plus_iff (hbase : base ≤ 16) {i : Int} :
    SpellsInt base ('+' :: cs) i ↔ ∃ n : Nat, Spells base cs n ∧ i = n := by
  constructor
  · rintro (⟨n, hn, -⟩ | hi)
    · exact absurd List.mem_cons_self (hn.notMem hbase rfl)
    · cases hi with
      | plus hn => exact ⟨_, hn, rfl⟩
  · rintro ⟨n, hn, rfl⟩
    exact .inr (.plus hn)

/-- A spelling without a sign spells a natural number. -/
theorem spellsInt_plain_iff (hminus : ∀ ds, cs ≠ '-' :: ds) (hplus : ∀ ds, cs ≠ '+' :: ds)
    {i : Int} : SpellsInt base cs i ↔ ∃ n : Nat, Spells base cs n ∧ i = n := by
  constructor
  · rintro (hn | hi)
    · exact hn
    · cases hi with
      | minus => exact absurd rfl (hminus _)
      | plus => exact absurd rfl (hplus _)
  · exact .inl

/-- Digits after at most one sign are read as the integer that they spell. -/
theorem signed?_eq_some_iff (hbase : base ≤ 16) {i : Int} :
    signed? base cs = some i ↔ SpellsInt base cs i := by
  have hmap {ds : List Char} (f : Nat → Int) :
      (digits? base ds).map f = some i ↔ ∃ n : Nat, Spells base ds n ∧ i = f n := by
    simp only [Option.map_eq_some_iff, digits?_eq_some_iff hbase, eq_comm (b := i)]
  by_cases hminus : ∃ ds, cs = '-' :: ds
  · obtain ⟨ds, rfl⟩ := hminus
    rw [signed?_minus, hmap, spellsInt_minus_iff hbase]
  by_cases hplus : ∃ ds, cs = '+' :: ds
  · obtain ⟨ds, rfl⟩ := hplus
    rw [signed?_plus, hmap, spellsInt_plus_iff hbase]
  push Not at hminus hplus
  rw [signed?_plain base hminus hplus, hmap, spellsInt_plain_iff hminus hplus]

/-- What is spelled without a sign is spelled as nothing else. -/
theorem Spells.eq_of_spellsInt (hbase : base ≤ 16) {n : Nat} {i : Int} (hn : Spells base cs n)
    (hi : SpellsInt base cs i) : i = n := by
  have hread := (signed?_eq_some_iff hbase).mpr hi
  rw [(signed?_eq_some_iff hbase).mpr (.inl ⟨n, hn, rfl⟩)] at hread
  exact (Option.some.inj hread).symm

/-- Digits spell one number. -/
theorem Spells.unique (hbase : base ≤ 16) {m n : Nat} (hm : Spells base cs m)
    (hn : Spells base cs n) : m = n :=
  Int.natCast_inj.mp (hn.eq_of_spellsInt hbase (.inl ⟨m, hm, rfl⟩))

/-! ### Written numbers -/

/-- Digits are read from left to right, and the number so far is all that is kept. -/
theorem moreDigits?_append (base acc : Nat) (xs ys : List Char) :
    moreDigits? base acc (xs ++ ys) = (moreDigits? base acc xs).bind (moreDigits? base · ys) := by
  induction xs generalizing acc with
  | nil => rfl
  | cons c xs ih =>
      simp only [List.cons_append, moreDigits?]
      cases digit? base c with
      | none => rfl
      | some d => exact ih _

/-- A number is read back from its digits. The induction is over the number without its last
digit. -/
theorem moreDigits?_toDigits (hone : 1 < base) (hbase : base ≤ 16) (n : Nat) :
    moreDigits? base 0 (Nat.toDigits base n) = some n := by
  have hdigit {d : Nat} (hd : d < base) : digit? base d.digitChar = some d :=
    (digit?_eq_some_iff hbase).mpr ⟨hd, .inl rfl⟩
  induction n using Nat.strong_induction_on with
  | _ n ih =>
      rw [Nat.toDigits_eq_if hone]
      split
      · rename_i hn
        simp [moreDigits?, hdigit hn]
      · rename_i hn
        have hlt : n / base < n := Nat.div_lt_self (by omega) hone
        rw [moreDigits?_append, ih _ hlt, Option.bind_some]
        simp [moreDigits?, hdigit (Nat.mod_lt n (by omega)), Nat.div_add_mod']

/-- The digits of a number are read back, in every base up to sixteen. -/
theorem digits?_toDigits (hone : 1 < base) (hbase : base ≤ 16) (n : Nat) :
    digits? base (Nat.toDigits base n) = some n := by
  rw [digits?, if_neg (by simp), moreDigits?_toDigits hone hbase]

/-- A decimal number is read back. -/
theorem digits?_repr (n : Nat) : digits? 10 n.repr.toList = some n := by
  rw [Nat.toList_repr]
  exact digits?_toDigits (by decide) (by decide) n

/-- A decimal number is read back also where a sign may stand. -/
theorem signed?_repr (n : Nat) : signed? 10 n.repr.toList = some (n : Int) := by
  have hspells : Spells 10 n.repr.toList n := (digits?_eq_some_iff (by decide)).mp (digits?_repr n)
  exact (signed?_eq_some_iff (by decide)).mpr (.inl ⟨n, hspells, rfl⟩)

/-- A decimal number is not empty. -/
theorem repr_ne_nil (n : Nat) : n.repr.toList ≠ [] := by
  rw [Nat.toList_repr]
  exact Nat.toDigits_ne_nil

/-- A number of 32 bits is read back. -/
theorem nat32?_repr {n : Nat} (h : n < 2 ^ 32) : nat32? n.repr = some n := by
  rw [nat32?, digitsBelow?, digits?_repr]
  exact Option.filter_eq_some_iff.mpr ⟨rfl, decide_eq_true h⟩

/-- Zeros in front add nothing. -/
theorem moreDigits?_zeros (hone : 1 < base) (hbase : base ≤ 16) (k : Nat) :
    moreDigits? base 0 (List.replicate k '0') = some 0 := by
  have hzero : digit? base '0' = some 0 := (digit?_eq_some_iff hbase).mpr ⟨by omega, .inl rfl⟩
  induction k with
  | zero => rfl
  | succ k ih => simpa [List.replicate_succ, moreDigits?, hzero] using ih

/-- Zeros in front do not change a number. -/
theorem moreDigits?_padLeft (hone : 1 < base) (hbase : base ≤ 16) (w n : Nat) :
    moreDigits? base 0 (padLeft w '0' (String.ofList (Nat.toDigits base n))).toList = some n := by
  unfold padLeft repeated
  rw [String.toList_append, String.toList_ofList, String.toList_ofList, moreDigits?_append,
    moreDigits?_zeros hone hbase, Option.bind_some, moreDigits?_toDigits hone hbase]

/-- A number that is not too great for a width is filled up to that width. -/
theorem length_padLeft (hone : 1 < base) {w n : Nat} (hw : 0 < w) (hn : n < base ^ w) :
    (padLeft w '0' (String.ofList (Nat.toDigits base n))).toList.length = w := by
  have hle : (Nat.toDigits base n).length ≤ w := (Nat.length_toDigits_le_iff hone hw).mpr hn
  unfold padLeft repeated
  simp only [String.toList_append, String.toList_ofList, String.length_ofList, List.length_append,
    List.length_replicate]
  omega

/-- Only zero is written with a zero in front. -/
theorem head?_toDigits {n : Nat} (hn : n ≠ 0) : (Nat.toDigits 10 n).head? ≠ some '0' := by
  induction n using Nat.strong_induction_on with
  | _ n ih =>
      rw [Nat.toDigits_eq_if (by decide)]
      split
      · simpa using hn
      · rename_i hten
        have hhead := ih (n / 10) (by omega) (by omega)
        rwa [List.head?_append_of_ne_nil _ Nat.toDigits_ne_nil]

end Pathwise.Text
