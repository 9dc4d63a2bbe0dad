import Pathwise.Json.Reader
import Pathwise.Proofs.Text.Delimited
import Pathwise.Proofs.Text.Numeral

/-!
# The form of JSON numbers

A number is written as a minus sign that may be absent, a whole part without leading zeros, and a
fraction and an exponent that may be absent too (`Json.NumberForm`).

* **Reading** (`Json.isNumber_iff`): the reader takes exactly the texts of this form for numbers,
  and reads each as a number (`Json.read?_text`).
* **Integers** (`Json.NumberForm.ofInt`): an integer is written in this form, with neither fraction
  nor exponent, and the numbers that can be read as integers are those of this kind
  (`Json.NumberForm.signed?_text_isSome_iff`).
-/

namespace Pathwise.Json

open Text (NotNext notNext_nil notNext_cons)

/-! ### The form -/

/-- One or more decimal digits. -/
structure AreDigits (ds : List Char) : Prop where
  ne_nil : ds ≠ []
  isDigit : ∀ d ∈ ds, d.isDigit = true

/-- A lone zero, or digits that do not begin with one. -/
def IsWhole (cs : List Char) : Prop :=
  cs = ['0'] ∨ AreDigits cs ∧ cs.head? ≠ some '0'

/-- Nothing, or a point and digits. -/
def IsFraction (cs : List Char) : Prop :=
  cs = [] ∨ ∃ ds, cs = '.' :: ds ∧ AreDigits ds

/-- Nothing, or a letter, a sign that may be absent, and digits. -/
def IsExponent (cs : List Char) : Prop :=
  cs = [] ∨ ∃ e sign ds, cs = e :: (sign ++ ds) ∧ (e = 'e' ∨ e = 'E') ∧
    (sign = [] ∨ sign = ['+'] ∨ sign = ['-']) ∧ AreDigits ds

/-- The parts of a JSON number. -/
structure NumberForm where
  minus : Bool
  whole : List Char
  fraction : List Char
  exponent : List Char
  isWhole : IsWhole whole
  isFraction : IsFraction fraction
  isExponent : IsExponent exponent

namespace NumberForm

/-- The number without its sign. -/
def unsigned (f : NumberForm) : List Char :=
  f.whole ++ (f.fraction ++ f.exponent)

/-- The number as it is written. -/
def text (f : NumberForm) : List Char :=
  if f.minus then '-' :: f.unsigned else f.unsigned

/-- Whether the number has neither fraction nor exponent. -/
def IsInteger (f : NumberForm) : Prop :=
  f.fraction = [] ∧ f.exponent = []

end NumberForm

/-! ### Reading the parts -/

/-- What is read as digits is all digits that there are, and there is one. -/
theorem someDigits?_eq_some_iff {cs ds rest : List Char} :
    someDigits? cs = some (ds, rest) ↔
      cs = ds ++ rest ∧ AreDigits ds ∧ NotNext Char.isDigit rest := by
  simp only [someDigits?, List.span_eq_takeWhile_dropWhile, Text.isDigit_eq]
  constructor
  · intro h
    split at h
    · cases h
    · rename_i hne
      cases h
      refine ⟨List.takeWhile_append_dropWhile.symm, ⟨by simpa using hne, ?_⟩,
        Text.notNext_dropWhile Char.isDigit cs⟩
      exact List.all_eq_true.mp List.all_takeWhile
  · rintro ⟨rfl, hds, hrest⟩
    rw [hrest.takeWhile_append hds.isDigit, hrest.dropWhile_append hds.isDigit]
    simp [hds.ne_nil]

/-- A whole part is read up to where no more digits follow. -/
theorem wholePart?_append {cs rest : List Char} (h : IsWhole cs)
    (hrest : NotNext Char.isDigit rest) : wholePart? (cs ++ rest) = some (cs, rest) := by
  rcases h with rfl | ⟨hds, hzero⟩
  · rfl
  · obtain ⟨d, ds, rfl⟩ := List.exists_cons_of_ne_nil hds.ne_nil
    rw [List.cons_append, wholePart?]
    · exact someDigits?_eq_some_iff.mpr ⟨rfl, hds, hrest⟩
    · rintro es ⟨rfl, -⟩
      exact hzero rfl

/-- What is read as a whole part is one. -/
theorem wholePart?_sound {cs whole rest : List Char} (h : wholePart? cs = some (whole, rest)) :
    cs = whole ++ rest ∧ IsWhole whole := by
  unfold wholePart? at h
  split at h
  · cases h
    exact ⟨rfl, .inl rfl⟩
  · rename_i hzero
    obtain ⟨rfl, hds, -⟩ := someDigits?_eq_some_iff.mp h
    refine ⟨rfl, .inr ⟨hds, ?_⟩⟩
    intro hfirst
    obtain ⟨ds, rfl⟩ := List.head?_eq_some_iff.mp hfirst
    exact hzero _ rfl

/-- A fraction is read up to its end, and where there is none, nothing is read. -/
theorem fractionPart?_append {cs rest : List Char} (h : IsFraction cs)
    (hpoint : NotNext (· == '.') rest) (hrest : NotNext Char.isDigit rest) :
    fractionPart? (cs ++ rest) = some (cs, rest) := by
  rcases h with rfl | ⟨ds, rfl, hds⟩
  · rw [List.nil_append, fractionPart?]
    rintro es rfl
    exact absurd (hpoint '.' rfl) (by decide)
  · rw [List.cons_append, fractionPart?, someDigits?_eq_some_iff.mpr ⟨rfl, hds, hrest⟩]
    rfl

/-- What is read as a fraction is one. -/
theorem fractionPart?_sound {cs fraction rest : List Char}
    (h : fractionPart? cs = some (fraction, rest)) :
    cs = fraction ++ rest ∧ IsFraction fraction := by
  unfold fractionPart? at h
  split at h
  · obtain ⟨⟨ds, rest'⟩, hread, hpair⟩ := Option.map_eq_some_iff.mp h
    cases hpair
    obtain ⟨rfl, hds, -⟩ := someDigits?_eq_some_iff.mp hread
    exact ⟨rfl, .inr ⟨ds, rfl, hds⟩⟩
  · cases h
    exact ⟨rfl, .inl rfl⟩

/-- A whole exponent is read to its end. After the letter, a digit is no sign. -/
theorem exponentPart?_self {cs : List Char} (h : IsExponent cs) :
    exponentPart? cs = some (cs, []) := by
  rcases h with rfl | ⟨e, sign, ds, rfl, he, hsign, hds⟩
  · rfl
  · have hdigits : someDigits? ds = some (ds, []) :=
      someDigits?_eq_some_iff.mpr ⟨by simp, hds, notNext_nil _⟩
    have hsplit : ∃ d es, ds = d :: es ∧ d.isDigit = true := by
      obtain ⟨d, es, rfl⟩ := List.exists_cons_of_ne_nil hds.ne_nil
      exact ⟨d, es, rfl, hds.isDigit d (by simp)⟩
    obtain ⟨d, es, rfl, hd⟩ := hsplit
    rcases hsign with rfl | rfl | rfl
    · rw [List.nil_append, exponentPart?, if_pos he, hdigits]
      · rfl
      · rintro r ⟨rfl, -⟩
        cases hd
      · rintro r ⟨rfl, -⟩
        cases hd
    · simp [exponentPart?, he, hdigits]
    · simp [exponentPart?, he, hdigits]

/-- What is read as an exponent is one. -/
theorem exponentPart?_sound {cs exponent rest : List Char}
    (h : exponentPart? cs = some (exponent, rest)) :
    cs = exponent ++ rest ∧ IsExponent exponent := by
  unfold exponentPart? at h
  split at h
  · rename_i e cs
    split at h
    · rename_i he
      -- The digits are read after the sign, whichever it is.
      have hread {sign cs' : List Char} (hsign : sign = [] ∨ sign = ['+'] ∨ sign = ['-'])
          (h : ((someDigits? cs').map fun p => (e :: sign ++ p.1, p.2)) =
            some (exponent, rest)) :
          e :: (sign ++ cs') = exponent ++ rest ∧ IsExponent exponent := by
        obtain ⟨⟨ds, rest'⟩, hdigits, hpair⟩ := Option.map_eq_some_iff.mp h
        cases hpair
        obtain ⟨rfl, hds, -⟩ := someDigits?_eq_some_iff.mp hdigits
        exact ⟨by simp, .inr ⟨e, sign, ds, rfl, he, hsign, hds⟩⟩
      split at h
      rename_i sign cs' hsign
      split at hsign
      · cases hsign
        exact hread (.inr (.inl rfl)) h
      · cases hsign
        exact hread (.inr (.inr rfl)) h
      · cases hsign
        exact hread (.inl rfl) h
    · cases h
      exact ⟨rfl, .inl rfl⟩
  · cases h
    exact ⟨rfl, .inl rfl⟩

/-! ### Reading a number -/

namespace NumberForm

variable (f : NumberForm)

/-- An exponent begins with its letter. -/
theorem notNext_exponent {p : Char → Bool} (he : p 'e' = false) (hE : p 'E' = false) :
    NotNext p f.exponent := by
  rcases f.isExponent with h | ⟨e, sign, ds, h, rfl | rfl, -, -⟩
  · exact h ▸ notNext_nil p
  · exact h ▸ notNext_cons he
  · exact h ▸ notNext_cons hE

/-- What follows the whole part begins with a point or with the letter of an exponent. -/
theorem notNext_fraction {p : Char → Bool} (hpoint : p '.' = false) (he : p 'e' = false)
    (hE : p 'E' = false) : NotNext p (f.fraction ++ f.exponent) := by
  rcases f.isFraction with h | ⟨ds, h, -⟩
  · rw [h]
    exact f.notNext_exponent he hE
  · rw [h]
    exact notNext_cons hpoint

/-- Without its sign, a number begins with a digit. -/
theorem exists_unsigned : ∃ d cs, f.unsigned = d :: cs ∧ d.isDigit = true := by
  unfold unsigned
  rcases f.isWhole with h | ⟨hds, -⟩
  · exact ⟨'0', _, by rw [h]; rfl, rfl⟩
  · obtain ⟨d, ds, h⟩ := List.exists_cons_of_ne_nil hds.ne_nil
    exact ⟨d, _, by rw [h]; rfl, hds.isDigit d (by simp [h])⟩

/-- A number begins with a minus sign or a digit. -/
theorem exists_text : ∃ c cs, f.text = c :: cs ∧ (c = '-' ∨ c.isDigit = true) := by
  unfold text
  split
  · exact ⟨'-', _, rfl, .inl rfl⟩
  · obtain ⟨d, cs, hcs, hd⟩ := f.exists_unsigned
    exact ⟨d, cs, hcs, .inr hd⟩

/-- Without its sign, a number does not begin with anything but a digit. -/
theorem unsigned_ne_cons {c : Char} (hc : c.isDigit = false) (cs : List Char) :
    f.unsigned ≠ c :: cs := by
  obtain ⟨d, ds, hds, hd⟩ := f.exists_unsigned
  rw [hds]
  rintro ⟨rfl, -⟩
  rw [hd] at hc
  cases hc

/-- Where there is no sign, signed and unsigned integers are read alike. -/
theorem signed?_unsigned :
    Text.signed? 10 f.unsigned = (Text.digits? 10 f.unsigned).map fun n : Nat => (n : Int) :=
  Text.signed?_plain 10 (f.unsigned_ne_cons rfl) (f.unsigned_ne_cons rfl)

/-- A number without its sign is read to its end. -/
theorem magnitude?_unsigned : magnitude? f.unsigned = some (f.unsigned, []) := by
  have hwhole : wholePart? f.unsigned = some (f.whole, f.fraction ++ f.exponent) :=
    wholePart?_append f.isWhole (f.notNext_fraction rfl rfl rfl)
  have hfraction : fractionPart? (f.fraction ++ f.exponent) = some (f.fraction, f.exponent) :=
    fractionPart?_append f.isFraction (f.notNext_exponent rfl rfl) (f.notNext_exponent rfl rfl)
  have hexponent := exponentPart?_self f.isExponent
  simp only [magnitude?, hwhole, hfraction, hexponent, Option.bind_eq_bind, Option.bind_some,
    Option.pure_def, List.append_assoc]
  rfl

/-- A number is read to its end. -/
theorem number?_text : number? f.text = some (f.text, []) := by
  unfold text
  split
  · simp [number?, f.magnitude?_unsigned]
  · rw [number?, f.magnitude?_unsigned]
    exact f.unsigned_ne_cons rfl

end NumberForm

/-- What is read without a sign is the number of a form. -/
theorem magnitude?_sound {cs ds rest : List Char} (h : magnitude? cs = some (ds, rest)) :
    cs = ds ++ rest ∧ ∀ minus : Bool, ∃ f : NumberForm, f.minus = minus ∧ f.unsigned = ds := by
  simp only [magnitude?, Option.bind_eq_bind, Option.bind_eq_some_iff] at h
  obtain ⟨⟨whole, cs₁⟩, hread, ⟨fraction, cs₂⟩, hread', ⟨exponent, cs₃⟩, hread'', hpair⟩ := h
  cases hpair
  obtain ⟨rfl, hwhole⟩ := wholePart?_sound hread
  obtain ⟨rfl, hfraction⟩ := fractionPart?_sound hread'
  obtain ⟨rfl, hexponent⟩ := exponentPart?_sound hread''
  refine ⟨by simp, fun minus => ?_⟩
  refine ⟨⟨minus, whole, fraction, exponent, hwhole, hfraction, hexponent⟩, rfl, ?_⟩
  simp [NumberForm.unsigned]

/-- What is read as a number is the text of a form. -/
theorem number?_sound {cs ds rest : List Char} (h : number? cs = some (ds, rest)) :
    cs = ds ++ rest ∧ ∃ f : NumberForm, f.text = ds := by
  unfold number? at h
  split at h
  · obtain ⟨⟨ds', rest'⟩, hread, hpair⟩ := Option.map_eq_some_iff.mp h
    cases hpair
    obtain ⟨rfl, hform⟩ := magnitude?_sound hread
    obtain ⟨f, hminus, rfl⟩ := hform true
    exact ⟨rfl, f, by simp [NumberForm.text, hminus]⟩
  · obtain ⟨rfl, hform⟩ := magnitude?_sound h
    obtain ⟨f, hminus, rfl⟩ := hform false
    exact ⟨rfl, f, by simp [NumberForm.text, hminus]⟩

/-- The texts that are taken for numbers are those of the form of a number. -/
theorem isNumber_iff (s : String) : isNumber s = true ↔ ∃ f : NumberForm, f.text = s.toList := by
  unfold isNumber
  constructor
  · intro h
    split at h
    · rename_i ds hread
      obtain ⟨htext, f, rfl⟩ := number?_sound hread
      exact ⟨f, by simpa using htext.symm⟩
    · cases h
  · rintro ⟨f, hf⟩
    rw [← hf, f.number?_text]

/-- A number is a value, whatever the depth. -/
theorem valueFrom_text (f : NumberForm) (nested fuel : Nat) :
    valueFrom nested (fuel + 1) f.text = some (.number (String.ofList f.text), []) := by
  obtain ⟨c, cs, hcs, hc⟩ := f.exists_text
  have hother {d : Char} {ds : List Char} (hds : f.text = d :: ds) :
      d = '-' ∨ d.isDigit = true := by
    rw [hcs] at hds
    cases hds
    exact hc
  rw [valueFrom, f.number?_text]
  · rfl
  -- No other value begins with a sign or a digit.
  all_goals
    intro rest hrest
    exact absurd (hother hrest) (by decide)

/-- A text of this form is read as a number. -/
theorem read?_text (f : NumberForm) :
    read? (String.ofList f.text) = some (.number (String.ofList f.text)) := by
  obtain ⟨c, cs, hcs, hc⟩ := f.exists_text
  have hgap : skipGap f.text = f.text := by
    have hfirst : isGap c = false := by
      rcases hc with rfl | hd
      · rfl
      · by_contra hblank
        simp only [isGap, Bool.not_eq_false, Bool.or_eq_true, beq_iff_eq] at hblank
        rcases hblank with ((rfl | rfl) | rfl) | rfl <;> cases hd
    rw [hcs, skipGap, List.dropWhile_cons_of_neg (by simp [hfirst])]
  rw [read?, String.toList_ofList, hgap]
  simp only [valueFrom_text]
  rfl

/-! ### Integers -/

/-- An integer can go on with digits only. -/
theorem moreDigits?_isSome_iff (acc : Nat) (cs : List Char) :
    (Text.moreDigits? 10 acc cs).isSome = true ↔ ∀ c ∈ cs, c.isDigit = true := by
  induction cs generalizing acc with
  | nil => simp [Text.moreDigits?]
  | cons c cs ih =>
      have hdigit : c.isDigit = (Text.digit? 10 c).isSome := by rw [← Text.isDigit_eq, Text.isDigit]
      rw [List.forall_mem_cons, hdigit, Text.moreDigits?]
      cases Text.digit? 10 c with
      | none => simp
      | some d => simpa using ih _

/-- A text is read as a natural number just if it is made of digits. -/
theorem digits?_isSome_iff (cs : List Char) :
    (Text.digits? 10 cs).isSome = true ↔ AreDigits cs := by
  rw [Text.digits?]
  split
  · rename_i hempty
    exact ⟨fun h => absurd h Bool.false_ne_true,
      fun h => absurd (List.isEmpty_iff.mp hempty) h.ne_nil⟩
  · rename_i hne
    rw [moreDigits?_isSome_iff]
    exact ⟨fun h => ⟨by simpa using hne, h⟩, fun h => h.isDigit⟩

/-- A whole part is made of digits. -/
theorem IsWhole.areDigits {cs : List Char} (h : IsWhole cs) : AreDigits cs := by
  rcases h with rfl | ⟨hds, -⟩
  · refine ⟨List.cons_ne_nil _ _, fun d hd => ?_⟩
    rw [List.mem_singleton.mp hd]
    rfl
  · exact hds

namespace NumberForm

variable (f : NumberForm)

/-- A number is digits alone if it has neither fraction nor exponent. These begin with characters
that are no digits. -/
theorem areDigits_unsigned_iff : AreDigits f.unsigned ↔ f.IsInteger := by
  constructor
  · intro h
    refine ⟨?_, ?_⟩
    · rcases f.isFraction with hnone | ⟨ds, hds, -⟩
      · exact hnone
      · have hpoint := h.isDigit '.' (by simp [unsigned, hds])
        cases hpoint
    · rcases f.isExponent with hnone | ⟨e, sign, ds, hds, he, -⟩
      · exact hnone
      · have hletter := h.isDigit e (by simp [unsigned, hds])
        rcases he with rfl | rfl <;> cases hletter
  · rintro ⟨hfraction, hexponent⟩
    simpa [unsigned, hfraction, hexponent] using f.isWhole.areDigits

/-- A number is read as an integer if it has neither fraction nor exponent. -/
theorem signed?_text_isSome_iff : (Text.signed? 10 f.text).isSome = true ↔ f.IsInteger := by
  rw [← f.areDigits_unsigned_iff, ← digits?_isSome_iff, text]
  split
  · rw [Text.signed?_minus, Option.isSome_map]
  · rw [f.signed?_unsigned, Option.isSome_map]

/-- After a zero in front there is a point or an exponent, if there is anything. -/
theorem unsigned_ne_cons_zero {c : Char} (hpoint : c ≠ '.') (he : c ≠ 'e') (hE : c ≠ 'E')
    (cs : List Char) : f.unsigned ≠ '0' :: c :: cs := by
  intro h
  have hrest : NotNext (· == c) (f.fraction ++ f.exponent) :=
    f.notNext_fraction (by simpa using hpoint.symm) (by simpa using he.symm)
      (by simpa using hE.symm)
  rw [unsigned] at h
  rcases f.isWhole with hzero | ⟨hds, hne⟩
  · rw [hzero, List.singleton_append, List.cons_inj_right] at h
    have hnext := hrest c (by rw [h]; rfl)
    simp at hnext
  · obtain ⟨d, ds, hwhole⟩ := List.exists_cons_of_ne_nil hds.ne_nil
    rw [hwhole, List.cons_append, List.cons.injEq] at h
    exact hne (by rw [hwhole, h.1]; rfl)

/-- An integer as it is written. -/
def ofInt (n : Int) : NumberForm where
  minus := n < 0
  whole := Nat.toDigits 10 n.natAbs
  fraction := []
  exponent := []
  isWhole := by
    by_cases hn : n.natAbs = 0
    · exact .inl (by rw [hn]; rfl)
    · refine .inr ⟨⟨Nat.toDigits_ne_nil, fun c hc => ?_⟩, Text.head?_toDigits hn⟩
      exact Nat.isDigit_of_mem_toDigits (by decide) (by decide) hc
  isFraction := .inl rfl
  isExponent := .inl rfl

/-- The form of an integer is written as the integer is. -/
theorem text_ofInt (n : Int) : (ofInt n).text = (toString n).toList := by
  have hunsigned : (ofInt n).unsigned = n.natAbs.repr.toList := by
    rw [Nat.toList_repr]
    exact List.append_nil _
  have hstring : toString n = n.repr := rfl
  rw [text, hunsigned, hstring, Int.repr_eq_if]
  by_cases hn : n < 0
  · rw [if_pos (by simpa [ofInt] using hn), if_neg (by omega), show n.natAbs = (-n).toNat by omega]
    simp
  · rw [if_neg (by simpa [ofInt] using hn), if_pos (by omega), show n.natAbs = n.toNat by omega]

/-- An integer is read back. -/
theorem signed?_toString (n : Int) : Text.signed? 10 (toString n).toList = some n := by
  have hstring : toString n = n.repr := rfl
  rw [hstring, Int.repr_eq_if]
  split
  · rename_i hn
    rw [Text.signed?_repr, Int.toNat_of_nonneg hn]
  · rename_i hn
    have hminus : ("-" ++ (-n).toNat.repr).toList = '-' :: (-n).toNat.repr.toList := by simp
    rw [hminus, Text.signed?_minus, Text.digits?_repr, Option.map_some,
      Int.toNat_of_nonneg (by omega), Int.neg_neg]

end NumberForm

end Pathwise.Json
