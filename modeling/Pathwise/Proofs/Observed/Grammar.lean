import Pathwise.Observed
import Pathwise.Proofs.Text.Numeral

/-!
# Which texts are integers

A recorded output is an integer if it has the form of one. This file has the form as a grammar, and
says where reading is more generous than that.

* **Numerals** (`Observed.Numeral`): at most one minus sign, then decimal digits, or `0x` or `0X`
  and hexadecimal digits. The value is that of the digits, negated after a minus sign.
* **Further signs** (`Observed.ExtraSign`): the reader of digits takes a sign of its own, so there
  may be a plus in front, a second sign after the minus, or a sign after `0x`.

Integers are read from texts of these two kinds and from no others
(`Observed.integer?_eq_some_iff`), and no text is of both (`Observed.ExtraSign.not_numeral`).
-/

namespace Pathwise.Observed

open Pathwise.Text

/-- Digits without a sign: decimal, or hexadecimal after a mark. -/
inductive Unsigned : List Char → Nat → Prop
  | decimal {cs : List Char} {n : Nat} (h : Spells 10 cs n) : Unsigned cs n
  | hexadecimal {x : Char} {cs : List Char} {n : Nat} (hx : x = 'x' ∨ x = 'X')
      (h : Spells 16 cs n) : Unsigned ('0' :: x :: cs) n

/-- The form of an integer, and its value. -/
inductive Numeral : List Char → Int → Prop
  | plain {cs : List Char} {n : Nat} (h : Unsigned cs n) : Numeral cs n
  | minus {cs : List Char} {n : Nat} (h : Unsigned cs n) : Numeral ('-' :: cs) (-n)

/-- An integer with a sign that its form does not have, and the value that it is given. -/
inductive ExtraSign : List Char → Int → Prop
  | plus {cs : List Char} {n : Nat} (h : Spells 10 cs n) : ExtraSign ('+' :: cs) n
  | afterMinus {cs : List Char} {i : Int} (h : SignedDigits 10 cs i) : ExtraSign ('-' :: cs) (-i)
  | afterMark {x : Char} {cs : List Char} {i : Int} (hx : x = 'x' ∨ x = 'X')
      (h : SignedDigits 16 cs i) : ExtraSign ('0' :: x :: cs) i
  | afterMinusAndMark {x : Char} {cs : List Char} {i : Int} (hx : x = 'x' ∨ x = 'X')
      (h : SignedDigits 16 cs i) : ExtraSign ('-' :: '0' :: x :: cs) (-i)

variable {cs : List Char}

/-! ### Signs -/

/-- Where signs stand in an integer: there is no plus, and no minus after the first character. -/
def SignsInPlace (cs : List Char) : Prop :=
  '+' ∉ cs ∧ '-' ∉ cs.tail

/-- Unsigned digits have no sign in them. -/
theorem Unsigned.notMem_sign {n : Nat} (h : Unsigned cs n) : '+' ∉ cs ∧ '-' ∉ cs := by
  cases h with
  | decimal h => exact ⟨h.notMem (by decide) rfl, h.notMem (by decide) rfl⟩
  | hexadecimal hx h =>
      have hplus := h.notMem (c := '+') (by decide) rfl
      have hminus := h.notMem (c := '-') (by decide) rfl
      rcases hx with rfl | rfl <;> simp [hplus, hminus]

/-- The signs of an integer are in their places. -/
theorem Numeral.signsInPlace {i : Int} (h : Numeral cs i) : SignsInPlace cs := by
  cases h with
  | plain h => exact ⟨h.notMem_sign.1, fun hc => h.notMem_sign.2 (List.mem_of_mem_tail hc)⟩
  | minus h => exact ⟨by simp [h.notMem_sign.1], h.notMem_sign.2⟩

/-- Signed digits have a sign in them. -/
theorem sign_mem_of_signedDigits {base : Nat} {i : Int} (h : SignedDigits base cs i) :
    '+' ∈ cs ∨ '-' ∈ cs := by
  cases h with
  | minus h => exact .inr List.mem_cons_self
  | plus h => exact .inl List.mem_cons_self

/-- With an extra sign, some sign is out of place. -/
theorem ExtraSign.not_signsInPlace {i : Int} (h : ExtraSign cs i) : ¬ SignsInPlace cs := by
  rintro ⟨hplus, hminus⟩
  cases h with
  | plus h => simp at hplus
  | afterMinus h =>
      rcases sign_mem_of_signedDigits h with hc | hc
      · exact hplus (List.mem_cons_of_mem _ hc)
      · exact hminus hc
  | afterMark hx h =>
      rcases sign_mem_of_signedDigits h with hc | hc
      · exact hplus (by simp [hc])
      · exact hminus (by simp [hc])
  | afterMinusAndMark hx h =>
      rcases sign_mem_of_signedDigits h with hc | hc
      · exact hplus (by simp [hc])
      · exact hminus (by simp [hc])

/-- No text is an integer both by its form and with a further sign. -/
theorem ExtraSign.not_numeral {i j : Int} (h : ExtraSign cs i) : ¬ Numeral cs j :=
  fun hnumeral => h.not_signsInPlace hnumeral.signsInPlace

/-! ### Reading -/

/-- What begins with a hexadecimal mark is no decimal number. -/
theorem not_spellsInt_mark {x : Char} (hx : x = 'x' ∨ x = 'X') (i : Int) :
    ¬ SpellsInt 10 ('0' :: x :: cs) i := by
  rintro (⟨n, h, -⟩ | h)
  · have hx : digit? 10 x = Option.none := by rcases hx with rfl | rfl <;> rfl
    exact h.notMem (by decide) hx (by simp)
  · cases h

/-- A magnitude is read from signed decimal digits, or from signed hexadecimal digits after a
mark. -/
theorem magnitude?_eq_some_iff {i : Int} :
    magnitude? cs = some i ↔ SpellsInt 10 cs i ∨
      ∃ x ds, (x = 'x' ∨ x = 'X') ∧ cs = '0' :: x :: ds ∧ SpellsInt 16 ds i := by
  have hmarked {x : Char} (hx : x = 'x' ∨ x = 'X') (ds : List Char) : signed? 16 ds = some i ↔
      SpellsInt 10 ('0' :: x :: ds) i ∨
        ∃ y es, (y = 'x' ∨ y = 'X') ∧ '0' :: x :: ds = '0' :: y :: es ∧ SpellsInt 16 es i := by
    rw [signed?_eq_some_iff (by decide)]
    constructor
    · intro h
      exact .inr ⟨x, ds, hx, rfl, h⟩
    · rintro (h | ⟨y, es, -, heq, h⟩)
      · exact absurd h (not_spellsInt_mark hx i)
      · cases heq
        exact h
  unfold magnitude?
  split
  · exact hmarked (.inl rfl) _
  · exact hmarked (.inr rfl) _
  · rename_i hlower hupper
    rw [signed?_eq_some_iff (by decide)]
    constructor
    · exact .inl
    · rintro (h | ⟨x, ds, rfl | rfl, rfl, -⟩)
      · exact h
      · exact absurd rfl (hlower ds)
      · exact absurd rfl (hupper ds)

/-- What is read after a minus sign has the form of an integer, or an extra sign. -/
theorem numeral_or_extraSign_minus {i : Int} (h : magnitude? cs = some i) :
    Numeral ('-' :: cs) (-i) ∨ ExtraSign ('-' :: cs) (-i) := by
  rcases magnitude?_eq_some_iff.mp h with
    (⟨n, hn, rfl⟩ | hsigned) | ⟨x, ds, hx, rfl, ⟨n, hn, rfl⟩ | hsigned⟩
  · exact .inl (.minus (.decimal hn))
  · exact .inr (.afterMinus hsigned)
  · exact .inl (.minus (.hexadecimal hx hn))
  · exact .inr (.afterMinusAndMark hx hsigned)

/-- What is read without a minus sign in front has the form of an integer, or an extra sign. -/
theorem numeral_or_extraSign_plain {i : Int} (hminus : ∀ ds, cs ≠ '-' :: ds)
    (h : magnitude? cs = some i) : Numeral cs i ∨ ExtraSign cs i := by
  rcases magnitude?_eq_some_iff.mp h with
    (⟨n, hn, rfl⟩ | hsigned) | ⟨x, ds, hx, rfl, ⟨n, hn, rfl⟩ | hsigned⟩
  · exact .inl (.plain (.decimal hn))
  · cases hsigned with
    | minus hn => exact absurd rfl (hminus _)
    | plus hn => exact .inr (.plus hn)
  · exact .inl (.plain (.hexadecimal hx hn))
  · exact .inr (.afterMark hx hsigned)

/-- Digits without a sign are read as their number. -/
theorem Unsigned.magnitude? {n : Nat} (h : Unsigned cs n) : magnitude? cs = some (n : Int) := by
  rw [magnitude?_eq_some_iff]
  cases h with
  | decimal h => exact .inl (.inl ⟨n, h, rfl⟩)
  | hexadecimal hx h => exact .inr ⟨_, _, hx, rfl, .inl ⟨n, h, rfl⟩⟩

/-- After a minus sign a magnitude is read and negated. -/
theorem integer?_minus {i : Int} (h : magnitude? cs = some i) :
    integer? ('-' :: cs) = some (-i) := by
  rw [integer?, h, Option.map_some]

/-- Without a minus sign in front a magnitude is read. -/
theorem integer?_plain {i : Int} (hminus : ∀ ds, cs ≠ '-' :: ds) (h : magnitude? cs = some i) :
    integer? cs = some i := by
  rw [integer?, h]
  exact hminus

/-- Integers are read from numerals and from texts with a further sign, and from no others. -/
theorem integer?_eq_some_iff {i : Int} :
    integer? cs = some i ↔ Numeral cs i ∨ ExtraSign cs i := by
  constructor
  · intro h
    unfold integer? at h
    split at h
    · obtain ⟨j, hj, rfl⟩ := Option.map_eq_some_iff.mp h
      exact numeral_or_extraSign_minus hj
    · rename_i hminus
      exact numeral_or_extraSign_plain hminus h
  · rintro (h | h)
    · cases h with
      | plain h =>
          refine integer?_plain ?_ h.magnitude?
          rintro ds rfl
          exact h.notMem_sign.2 List.mem_cons_self
      | minus h => exact integer?_minus h.magnitude?
    · cases h with
      | plus h =>
          exact integer?_plain nofun (magnitude?_eq_some_iff.mpr (.inl (.inr (.plus h))))
      | afterMinus h => exact integer?_minus (magnitude?_eq_some_iff.mpr (.inl (.inr h)))
      | afterMark hx h =>
          exact integer?_plain nofun (magnitude?_eq_some_iff.mpr (.inr ⟨_, _, hx, rfl, .inr h⟩))
      | afterMinusAndMark hx h =>
          exact integer?_minus (magnitude?_eq_some_iff.mpr (.inr ⟨_, _, hx, rfl, .inr h⟩))

/-! ### Outputs -/

/-- An output is an integer just if its trimmed text is read as that integer. -/
theorem ofText_eq_integer_iff {raw : String} {i : Int} :
    ofText raw = integer i ↔ integer? (trimChars raw.toList) = some i := by
  unfold ofText
  cases hcs : trimChars raw.toList with
  | nil => simp [integer?, magnitude?, signed?, digits?]
  | cons c cs =>
      simp only [List.isEmpty_cons, Bool.false_eq_true, if_false]
      cases integer? (c :: cs) <;> simp

/-- An output that is not empty and no integer is its trimmed text. -/
theorem ofText_eq_text {raw : String} (hne : trimChars raw.toList ≠ [])
    (h : integer? (trimChars raw.toList) = Option.none) : ofText raw = text (trim raw) := by
  have hempty : (trimChars raw.toList).isEmpty = false := by simpa using hne
  simp only [ofText, hempty, h, trim, Bool.false_eq_true, if_false]

/-- A raw text is read as its form says: what has the form of an integer is that integer, nothing
else is an integer, and what else is visible is kept as text. -/
structure ReadByForm (raw : String) : Prop where
  integers : ∀ i, ofText raw = integer i ↔ Numeral (trimChars raw.toList) i
  texts : trimChars raw.toList ≠ [] → (∀ i, ¬ Numeral (trimChars raw.toList) i) →
    ofText raw = text (trim raw)

/-- **Texts without a further sign are read by their form, and only these.** The integers are those
of numerals and of texts with a further sign. -/
theorem readByForm_iff (raw : String) :
    (ReadByForm raw ↔ ¬ ∃ i, ExtraSign (trimChars raw.toList) i) ∧
      ∀ i, ofText raw = integer i ↔
        Numeral (trimChars raw.toList) i ∨ ExtraSign (trimChars raw.toList) i := by
  have hintegers (i : Int) : ofText raw = integer i ↔
      Numeral (trimChars raw.toList) i ∨ ExtraSign (trimChars raw.toList) i := by
    rw [ofText_eq_integer_iff, integer?_eq_some_iff]
  refine ⟨⟨?_, fun hplain => ⟨fun i => ?_, fun hne hnumeral => ?_⟩⟩, hintegers⟩
  · rintro hread ⟨i, hextra⟩
    exact hextra.not_numeral ((hread.integers i).mp ((hintegers i).mpr (.inr hextra)))
  · rw [hintegers, or_iff_left fun hextra => hplain ⟨i, hextra⟩]
  · refine ofText_eq_text hne (Option.eq_none_iff_forall_ne_some.mpr fun i hi => ?_)
    rcases integer?_eq_some_iff.mp hi with h | h
    · exact hnumeral i h
    · exact hplain ⟨i, h⟩

/-- Two minus signs cancel out, although a text with two is not of the form of an integer. -/
theorem two_minus_signs_read :
    ofText "--5" = integer 5 ∧ (∀ i, ¬ Numeral (trimChars "--5".toList) i) ∧
      ¬ ReadByForm "--5" := by
  have hread : ofText "--5" = integer 5 := by decide +kernel
  have hnumeral (i : Int) : ¬ Numeral (trimChars "--5".toList) i := by
    have htrim : trimChars "--5".toList = "--5".toList := by decide +kernel
    rw [htrim]
    intro h
    have hsigns : '-' ∉ "--5".toList.tail := h.signsInPlace.2
    exact hsigns (by decide +kernel)
  exact ⟨hread, hnumeral, fun h => hnumeral 5 ((h.integers 5).mp hread)⟩

end Pathwise.Observed
