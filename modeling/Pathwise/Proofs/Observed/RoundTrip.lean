import Pathwise.Observed.Encoding
import Pathwise.Proofs.Json.Numbers
import Pathwise.Proofs.Json.Strings
import Pathwise.Proofs.Observed.Grammar

/-!
# Outputs through JSON

When an output that is written as JSON is read back as it was.

* **Integers** (`Observed.decode_integer`): always, because they are written as numbers.
* **Texts** (`Observed.decode_text`): a string that has the form of a JSON number is read as that
  number, and any other as a raw output.
* **Raw outputs** (`Observed.decode_toJson_iff`): so the output of a raw text is lost in one case
  alone, where the text is a JSON number with a fraction or an exponent. Then reading fails.

Texts are texts of characters, that is, their bytes are UTF-8. What is said here is not said of
stray bytes: JSON cannot write them, and has the replacement character in their place.
-/

namespace Pathwise.Observed

open Text (trimChars trim)
open Json (NumberForm)

/-! ### Integers and numbers -/

/-- A JSON number is read as an output in the same way as it is read as an integer: it has at most
one sign, and no mark after a zero in front. -/
theorem integer?_text (f : NumberForm) : integer? f.text = Text.signed? 10 f.text := by
  have hunsigned : magnitude? f.unsigned = Text.signed? 10 f.unsigned := by
    rw [magnitude?]
    · exact f.unsigned_ne_cons_zero (by decide) (by decide) (by decide)
    · exact f.unsigned_ne_cons_zero (by decide) (by decide) (by decide)
  rw [NumberForm.text]
  split
  · rw [integer?, hunsigned, f.signed?_unsigned, Text.signed?_minus, Option.map_map]
    rfl
  · rw [integer?, hunsigned]
    exact f.unsigned_ne_cons rfl

/-- A JSON number is read as an integer just if it has neither fraction nor exponent. -/
theorem integer?_text_isSome_iff (f : NumberForm) :
    (integer? f.text).isSome = true ↔ f.IsInteger := by
  rw [integer?_text]
  exact f.signed?_text_isSome_iff

/-! ### Reading back -/

/-- What is no literal null is decoded by the kind of its JSON value. -/
theorem decode_of_read? {json : String} {c : Char} {cs : List Char} (hjson : json.toList = c :: cs)
    (htrimmed : Text.Trimmed json.toList) (hc : c ≠ 'n') :
    decode json =
      match Json.read? json with
      | some (.number n) => ofNumeral n
      | some (.string s) => if Json.isNumber s then ofNumeral s else .ok (ofText s)
      | some .null => .ok none
      | _ => .error .notScalar := by
  have htrim : trim json = json := by
    rw [trim, htrimmed.trimChars_eq, String.ofList_toList]
  have hother : ¬ (trim json = "null" ∨ trim json = "") := by
    rw [htrim]
    rintro (rfl | rfl)
    · exact hc (List.cons.inj hjson).1.symm
    · cases hjson
  exact if_neg hother

/-- Integers are read back. -/
theorem decode_integer (n : Int) : decode (integer n).toJson.compact = .ok (integer n) := by
  have hwritten : (integer n).toJson.compact = toString n := by
    simp [toJson, Json.int, Json.compact]
  obtain ⟨c, cs, hcs, hc⟩ := (NumberForm.ofInt n).exists_text
  have hread := Json.read?_text (NumberForm.ofInt n)
  rw [NumberForm.text_ofInt] at hcs hread
  rw [String.ofList_toList] at hread
  have hfirst : c ≠ 'n' := by
    rintro rfl
    exact absurd hc (by decide)
  rw [hwritten, decode_of_read? hcs (Text.trimmed_int_repr n) hfirst, hread]
  simp only [ofNumeral, NumberForm.signed?_toString]

/-- A text is read back unless it is a JSON number; then it is read as one. -/
theorem decode_text (s : String) :
    decode (text s).toJson.compact = if Json.isNumber s then ofNumeral s else .ok (ofText s) := by
  have hwritten : (text s).toJson.compact = Json.writtenString s := by
    simp [toJson, Json.compact]
  have htrimmed : Text.Trimmed (Json.writtenString s).toList := by
    rw [Json.toList_writtenString]
    refine ⟨Text.notNext_cons rfl, ?_⟩
    rw [List.reverse_cons, List.reverse_append]
    exact Text.notNext_cons rfl
  rw [hwritten, decode_of_read? (Json.toList_writtenString s) htrimmed (by decide),
    Json.read?_writtenString]

/-! ### Raw outputs -/

/-- Blanks around an output do not matter. -/
theorem ofText_trim (raw : String) : ofText (trim raw) = ofText raw := by
  simp only [ofText, trim, String.toList_ofList, (Text.trimmed_trimChars raw.toList).trimChars_eq]

/-- A raw text that is no integer is read back unless it is a JSON number. As such it is refused. -/
theorem decode_of_integer?_eq_none {raw : String} (hne : trimChars raw.toList ≠ [])
    (hint : integer? (trimChars raw.toList) = Option.none) :
    decode (ofText raw).toJson.compact =
      if Json.isNumber (trim raw) then .error (.notInteger (trim raw)) else .ok (ofText raw) := by
  have htext := ofText_eq_text hne hint
  rw [htext, decode_text, ofText_trim, htext]
  split
  · rename_i hnumber
    obtain ⟨f, hf⟩ := (Json.isNumber_iff _).mp hnumber
    have hsigned : Text.signed? 10 (trim raw).toList = Option.none := by
      rw [← hf, ← integer?_text, hf, trim, String.toList_ofList, hint]
    simp only [ofNumeral, hsigned]
  · rfl

/-- **The output of a raw text of characters comes back from JSON unless the text is a JSON number
with a fraction or an exponent.** Such a text is not read at all. -/
theorem decode_toJson_iff (raw : String) :
    (decode (ofText raw).toJson.compact = .ok (ofText raw) ↔
        ¬ ∃ f : NumberForm, f.text = trimChars raw.toList ∧ ¬ f.IsInteger) ∧
      (decode (ofText raw).toJson.compact = .ok (ofText raw) ∨
        decode (ofText raw).toJson.compact = .error (.notInteger (trim raw))) := by
  by_cases hempty : trimChars raw.toList = []
  · have hback : decode (ofText raw).toJson.compact = .ok (ofText raw) := by
      rw [show ofText raw = none by simp [ofText, hempty]]
      decide +kernel
    refine ⟨iff_of_true hback ?_, .inl hback⟩
    rintro ⟨f, hf, -⟩
    obtain ⟨c, cs, hcs, -⟩ := f.exists_text
    rw [hf, hempty] at hcs
    cases hcs
  cases hint : integer? (trimChars raw.toList) with
  | some n =>
      have hback : decode (ofText raw).toJson.compact = .ok (ofText raw) := by
        rw [ofText_eq_integer_iff.mpr hint]
        exact decode_integer n
      refine ⟨iff_of_true hback ?_, .inl hback⟩
      rintro ⟨f, hf, hnot⟩
      rw [← integer?_text_isSome_iff, hf, hint] at hnot
      exact hnot rfl
  | none =>
      -- No JSON number is an integer here, so that each has a fraction or an exponent.
      have hnumber : Json.isNumber (trim raw) = true ↔
          ∃ f : NumberForm, f.text = trimChars raw.toList ∧ ¬ f.IsInteger := by
        rw [Json.isNumber_iff, trim, String.toList_ofList]
        refine exists_congr fun f => (and_iff_left_of_imp fun hf => ?_).symm
        rw [← integer?_text_isSome_iff, hf, hint]
        exact Bool.false_ne_true
      rw [decode_of_integer?_eq_none hempty hint, ← hnumber]
      split
      · rename_i h
        exact ⟨iff_of_false (by simp) (not_not_intro h), .inr rfl⟩
      · rename_i h
        exact ⟨iff_of_true rfl h, .inl rfl⟩

/-- A raw text with a fraction is kept as text, and cannot be read back. -/
theorem fraction_not_read_back :
    ofText "1.5" = text "1.5" ∧
      decode (ofText "1.5").toJson.compact = .error (.notInteger "1.5") := by
  decide +kernel

end Pathwise.Observed
