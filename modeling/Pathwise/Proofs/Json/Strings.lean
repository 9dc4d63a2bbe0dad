import Pathwise.Json.Reader
import Pathwise.Json.Writer
import Pathwise.Proofs.Text.Numeral

/-!
# Strings can be read back

A string is written character by character, with escapes for some of them. Reading undoes that one
character at a time.

* **Steps** (`Json.stringFrom_escape`, `Json.stringFrom_unit`, `Json.stringFrom_plain`): what the
  three ways to write a character add to what has been read.
* **Characters** (`Json.stringFrom_writtenChar`): so a written character adds itself.
* **Strings** (`Json.read?_writtenString`): and a written string is read as the string.
-/

namespace Pathwise.Json

/-! ### Steps -/

/-- An escaped character is read as what it stands for. -/
theorem stringFrom_escape (p : Unfinished) {e c : Char} (he : escaped? e = some c)
    (cs : List Char) : stringFrom p ('\\' :: e :: cs) = stringFrom (p.push c) cs := by
  rw [stringFrom, he]
  rintro a b d f rest rfl
  cases he

/-- A code unit is read as its number. -/
theorem stringFrom_unit (p : Unfinished) {a b c d : Char} {n : Nat} (hn : hex4? a b c d = some n)
    (cs : List Char) :
    stringFrom p ('\\' :: 'u' :: a :: b :: c :: d :: cs) = stringFrom (p.pushUnit n) cs := by
  rw [stringFrom, hn]

/-- A plain character is read as itself. -/
theorem stringFrom_plain (p : Unfinished) {c : Char} (hquote : c ≠ '"') (hslash : c ≠ '\\')
    (hvisible : 0x20 ≤ c.toNat) (cs : List Char) :
    stringFrom p (c :: cs) = stringFrom (p.push c) cs := by
  have hallowed : ¬ (c.toNat < 0x20 ∨ c = '\\') := by
    rintro (h | h)
    · omega
    · exact hslash h
  rw [stringFrom, if_neg hallowed]
  · exact hquote
  · rintro a b d f rest rfl
    exact absurd rfl hslash
  · rintro e rest rfl
    exact absurd rfl hslash

/-! ### Characters -/

/-- Four hexadecimal digits denote the number that they are written for. -/
theorem exists_hexPadded {n : Nat} (hn : n < 16 ^ 4) :
    ∃ a b c d, (Text.hexPadded 4 n).toList = [a, b, c, d] ∧ hex4? a b c d = some n := by
  have hvalue : Text.moreDigits? 16 0 (Text.hexPadded 4 n).toList = some n :=
    Text.moreDigits?_padLeft (by decide) (by decide) 4 n
  have hlength : (Text.hexPadded 4 n).toList.length = 4 :=
    Text.length_padLeft (by decide) (by decide) hn
  generalize (Text.hexPadded 4 n).toList = digits at hvalue hlength ⊢
  match digits, hlength with
  | [a, b, c, d], _ => exact ⟨a, b, c, d, rfl, hvalue⟩

/-- A code point that is no surrogate stands for its character. -/
theorem pushUnit_toNat (acc : List Char) (c : Char) :
    (Unfinished.mk none acc).pushUnit c.toNat = ⟨none, c :: acc⟩ := by
  have hvalid : c.toNat < 0xD800 ∨ 0xDFFF < c.toNat ∧ c.toNat < 0x110000 := c.valid
  have hhigh : isHigh c.toNat = false := by
    simp only [isHigh, Bool.and_eq_false_iff, decide_eq_false_iff_not]
    omega
  have hlow : isLow c.toNat = false := by
    simp only [isLow, Bool.and_eq_false_iff, decide_eq_false_iff_not]
    omega
  simp [Unfinished.pushUnit, hhigh, hlow, Unfinished.push, Unfinished.settled]

/-- A written character is read as the character. The cases are those of writing. -/
theorem stringFrom_writtenChar (c : Char) (acc rest : List Char) :
    stringFrom ⟨none, acc⟩ ((writtenChar c).toList ++ rest) = stringFrom ⟨none, c :: acc⟩ rest := by
  have hescape {e : Char} (he : escaped? e = some c) :
      stringFrom ⟨none, acc⟩ ('\\' :: e :: rest) = stringFrom ⟨none, c :: acc⟩ rest :=
    stringFrom_escape ⟨none, acc⟩ he rest
  have hnumber {n : Nat} (hn : c.toNat = n) : c = Char.ofNat n := by rw [← hn, Char.ofNat_toNat]
  unfold writtenChar
  simp only
  split
  · rename_i hc
    exact hescape (hc ▸ rfl)
  split
  · rename_i hc
    exact hescape (hc ▸ rfl)
  split
  · rename_i hc
    exact hescape (hnumber hc ▸ rfl)
  split
  · rename_i hc
    exact hescape (hnumber hc ▸ rfl)
  split
  · rename_i hc
    exact hescape (hc ▸ rfl)
  split
  · rename_i hc
    exact hescape (hc ▸ rfl)
  split
  · rename_i hc
    exact hescape (hc ▸ rfl)
  split
  · rename_i hcode
    have hn : c.toNat < 16 ^ 4 := by
      rcases hcode with h | rfl | rfl | rfl | h | h
      · omega
      · decide
      · decide
      · decide
      · omega
      · omega
    obtain ⟨a, b, d, e, htext, hvalue⟩ := exists_hexPadded hn
    rw [String.toList_append, htext, ← pushUnit_toNat]
    exact stringFrom_unit _ hvalue rest
  · rename_i hquote hslash _ _ _ _ _ hcode
    have hsingle : c.toString.toList = [c] := String.toList_singleton c
    rw [hsingle]
    refine stringFrom_plain ⟨none, acc⟩ hquote hslash ?_ rest
    exact Nat.le_of_not_lt fun hlow => hcode (.inl hlow)

/-! ### Strings -/

/-- Written characters are read back, up to the quote. -/
theorem stringFrom_writtenChars (cs acc rest : List Char) :
    stringFrom ⟨none, acc⟩ (cs.flatMap (fun c => (writtenChar c).toList) ++ '"' :: rest) =
      some (String.ofList (acc.reverse ++ cs), rest) := by
  induction cs generalizing acc with
  | nil => simp [stringFrom, Unfinished.settled]
  | cons c cs ih =>
      rw [List.flatMap_cons, List.append_assoc, stringFrom_writtenChar, ih]
      simp

/-- A string is written as its characters between quotes. -/
theorem toList_writtenString (s : String) :
    (writtenString s).toList =
      '"' :: (s.toList.flatMap (fun c => (writtenChar c).toList) ++ ['"']) := by
  simp [writtenString, String.toList_join, List.flatMap, Function.comp_def]

/-- A written string is read as the string. -/
theorem read?_writtenString (s : String) : read? (writtenString s) = some (.string s) := by
  have hvalue (fuel : Nat) :
      valueFrom 0 (fuel + 1) (writtenString s).toList = some (.string s, []) := by
    rw [toList_writtenString, valueFrom, string?, stringFrom_writtenChars]
    simp
  have hgap : skipGap (writtenString s).toList = (writtenString s).toList := by
    rw [toList_writtenString]
    rfl
  simp only [read?, hgap, hvalue]
  rfl

end Pathwise.Json
