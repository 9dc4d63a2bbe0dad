import Mathlib.Data.List.Basic
import Pathwise.Text.Numeral

/-!
# Delimited texts

When the parts of a text can be told apart again.

* **Spans** (`Text.append_inj_of_span`): a part whose characters all have a property ends where a
  character has it no more. So a word ends at a mark that does not occur in it
  (`Text.append_cons_inj`), and a numeral where there is no further digit
  (`Text.repr_append_inj`, `Text.int_append_inj`).
* **Lists** (`Text.intercalate_append_inj`): members that can be told apart, with a mark between
  them that does not occur at the end.
* **Lines** (`Text.intercalate_lines`, `Text.not_mem_of_mem_lines`): the lines of a text are what
  stands between its line feeds. Lines before a last one, which may run on over further lines, can
  be told apart if the last one is known by how it begins (`Text.lines_append_inj`).
* **Trimmed texts** (`Text.Trimmed`): texts without white space at either end are those that
  trimming leaves and gives.
-/

namespace Pathwise.Text

variable {xs xs' ys ys' : List Char}

/-! ### Spans -/

/-- Whether a text does not begin with a character of some kind. -/
def NotNext (p : Char → Bool) (cs : List Char) : Prop :=
  ∀ c ∈ cs.head?, p c = false

/-- Nothing comes next at the end. -/
theorem notNext_nil (p : Char → Bool) : NotNext p [] := nofun

/-- What comes next is the first character. -/
theorem notNext_cons {p : Char → Bool} {c : Char} {cs : List Char} (h : p c = false) :
    NotNext p (c :: cs) := by
  simpa [NotNext] using h

/-- What has the property is taken, up to where it ends. -/
theorem NotNext.takeWhile_append {p : Char → Bool} (hxs : ∀ c ∈ xs, p c = true)
    (hys : NotNext p ys) : (xs ++ ys).takeWhile p = xs := by
  rw [List.takeWhile_append_of_pos hxs]
  cases ys with
  | nil => simp
  | cons c cs => simp [hys c rfl]

/-- What has the property is dropped, up to where it ends. -/
theorem NotNext.dropWhile_append {p : Char → Bool} (hxs : ∀ c ∈ xs, p c = true)
    (hys : NotNext p ys) : (xs ++ ys).dropWhile p = ys := by
  have hcut := List.takeWhile_append_dropWhile (p := p) (l := xs ++ ys)
  rw [hys.takeWhile_append hxs] at hcut
  exact List.append_cancel_left hcut

/-- Nothing is dropped where the property does not hold next. -/
theorem NotNext.dropWhile_eq {p : Char → Bool} {cs : List Char} (h : NotNext p cs) :
    cs.dropWhile p = cs := by
  cases cs with
  | nil => rfl
  | cons c cs => exact List.dropWhile_cons_of_neg (by simp [h c rfl])

/-- What is left does not begin with the property. -/
theorem notNext_dropWhile (p : Char → Bool) (cs : List Char) : NotNext p (cs.dropWhile p) := by
  intro c hc
  rw [Option.mem_def] at hc
  simpa [hc] using List.head?_dropWhile_not p cs

/-- A part of characters of one kind ends where the next is of another kind. -/
theorem append_inj_of_span {p : Char → Bool} (hxs : ∀ c ∈ xs, p c = true)
    (hxs' : ∀ c ∈ xs', p c = true) (hys : NotNext p ys) (hys' : NotNext p ys')
    (h : xs ++ ys = xs' ++ ys') : xs = xs' ∧ ys = ys' := by
  have hspan : xs = xs' := by
    rw [← hys.takeWhile_append hxs, ← hys'.takeWhile_append hxs', h]
  subst hspan
  exact ⟨rfl, List.append_cancel_left h⟩

/-- A word ends at a mark that does not occur in it. -/
theorem append_cons_inj {c : Char} (hxs : c ∉ xs) (hxs' : c ∉ xs')
    (h : xs ++ c :: ys = xs' ++ c :: ys') : xs = xs' ∧ ys = ys' := by
  have hspan := append_inj_of_span (p := (· != c)) (by grind) (by grind)
    (notNext_cons (by simp)) (notNext_cons (by simp)) h
  exact ⟨hspan.1, List.tail_eq_of_cons_eq hspan.2⟩

/-- A word begins after a mark that does not occur in it. -/
theorem append_cons_inj_last {c : Char} (hys : c ∉ ys) (hys' : c ∉ ys')
    (h : xs ++ c :: ys = xs' ++ c :: ys') : xs = xs' ∧ ys = ys' := by
  have hreverse : ys.reverse ++ c :: xs.reverse = ys'.reverse ++ c :: xs'.reverse := by
    simpa using congrArg List.reverse h
  have hparts := append_cons_inj (by simpa using hys) (by simpa using hys') hreverse
  exact ⟨List.reverse_injective hparts.2, List.reverse_injective hparts.1⟩

/-- What comes after a start follows it in the text. -/
theorem eq_append_of_after? {start cs rest : List Char} (h : after? start cs = some rest) :
    cs = start ++ rest := by
  induction start generalizing cs with
  | nil =>
      cases h
      rfl
  | cons s start ih =>
      cases cs with
      | nil => cases h
      | cons c cs =>
          rw [after?] at h
          split at h
          · rename_i hsame
            rw [hsame, ih h]
            rfl
          · cases h

/-! ### Numerals -/

/-- Different numbers are written differently. -/
theorem repr_inj {m n : Nat} (h : m.repr.toList = n.repr.toList) : m = n := by
  rw [Nat.toList_repr, Nat.toList_repr] at h
  have hvalue := congrArg (Nat.ofDigitChars 10 · 0) h
  simpa [Nat.ofDigitChars_toDigits] using hvalue

/-- Natural numbers are written with digits. -/
theorem isDigit_of_mem_repr {n : Nat} {c : Char} (h : c ∈ n.repr.toList) : c.isDigit = true := by
  rw [Nat.toList_repr] at h
  exact Nat.isDigit_of_mem_toDigits (by omega) (by omega) h

/-- A numeral ends where there is no further digit. -/
theorem repr_append_inj {m n : Nat} (hxs : NotNext Char.isDigit xs) (hys : NotNext Char.isDigit ys)
    (h : m.repr.toList ++ xs = n.repr.toList ++ ys) : m = n ∧ xs = ys := by
  obtain ⟨hrepr, hrest⟩ := append_inj_of_span (fun _ => isDigit_of_mem_repr)
    (fun _ => isDigit_of_mem_repr) hxs hys h
  exact ⟨repr_inj hrepr, hrest⟩

/-- Different integers are written differently. -/
theorem int_repr_inj {y z : Int} (h : y.repr.toList = z.repr.toList) : y = z := by
  have hsign (n : Nat) : '-' ∉ n.repr.toList := fun h => absurd (isDigit_of_mem_repr h) (by decide)
  rw [Int.repr_eq_if, Int.repr_eq_if] at h
  split at h <;> split at h
  · have := repr_inj h
    omega
  · refine absurd ?_ (hsign y.toNat)
    rw [h]
    simp
  · refine absurd ?_ (hsign z.toNat)
    rw [← h]
    simp
  · rw [String.toList_append, String.toList_append] at h
    have := repr_inj (List.append_cancel_left h)
    omega

/-- Whether a character can be part of an integer. -/
def isSignOrDigit (c : Char) : Bool :=
  c == '-' || c.isDigit

/-- Integers are written with digits and a sign. -/
theorem isSignOrDigit_of_mem_repr {z : Int} {c : Char} (h : c ∈ z.repr.toList) :
    isSignOrDigit c = true := by
  rw [Int.repr_eq_if] at h
  split at h
  · simp [isSignOrDigit, isDigit_of_mem_repr h]
  · rw [String.toList_append] at h
    rcases List.mem_append.mp h with h | h
    · simp_all [isSignOrDigit]
    · simp [isSignOrDigit, isDigit_of_mem_repr h]

/-- An integer ends where there is neither a digit nor a sign. -/
theorem int_append_inj {y z : Int} (hxs : NotNext isSignOrDigit xs) (hys : NotNext isSignOrDigit ys)
    (h : y.repr.toList ++ xs = z.repr.toList ++ ys) : y = z ∧ xs = ys := by
  obtain ⟨hrepr, hrest⟩ := append_inj_of_span (fun _ => isSignOrDigit_of_mem_repr)
    (fun _ => isSignOrDigit_of_mem_repr) hxs hys h
  exact ⟨int_repr_inj hrepr, hrest⟩

/-! ### Lists -/

/-- Between marks there is nothing but the parts. -/
theorem mem_or_mem_of_mem_intercalate {c : Char} {mark : List Char} {parts : List (List Char)}
    (h : c ∈ mark.intercalate parts) : c ∈ mark ∨ ∃ part ∈ parts, c ∈ part := by
  induction parts with
  | nil => simp at h
  | cons part parts ih =>
      cases parts with
      | nil => exact .inr ⟨part, List.mem_singleton_self _, by simpa using h⟩
      | cons part' parts =>
          rw [List.intercalate_cons_cons] at h
          rcases List.mem_append.mp h with h | h
          · rcases List.mem_append.mp h with h | h
            · exact .inr ⟨part, List.mem_cons_self, h⟩
            · exact .inl h
          · refine (ih h).imp_right ?_
            rintro ⟨other, hother, hc⟩
            exact ⟨other, List.mem_cons_of_mem _ hother, hc⟩

/-- Members that can be told apart from what may follow, with a mark between them, can be told apart
from a rest that does not begin with the mark. -/
theorem intercalate_append_inj {α : Type} {text : α → List Char} {mark : List Char}
    (Follows : List Char → Prop) (hmark : ∀ cs, Follows (mark ++ cs))
    (htext : ∀ a b cs ds, Follows cs → Follows ds → text a ++ cs = text b ++ ds → a = b ∧ cs = ds)
    (hxs : Follows xs) (hys : Follows ys) (hxs' : ¬ mark <+: xs) (hys' : ¬ mark <+: ys)
    {as bs : List α} (has : as ≠ []) (hbs : bs ≠ [])
    (h : mark.intercalate (as.map text) ++ xs = mark.intercalate (bs.map text) ++ ys) :
    as = bs ∧ xs = ys := by
  induction as generalizing bs with
  | nil => exact absurd rfl has
  | cons a as ih =>
      obtain ⟨b, bs, rfl⟩ := List.exists_cons_of_ne_nil hbs
      cases as with
      | nil =>
          cases bs with
          | nil =>
              obtain ⟨rfl, rfl⟩ := htext a b xs ys hxs hys (by simpa using h)
              exact ⟨rfl, rfl⟩
          | cons b' bs =>
              simp only [List.map_cons, List.map_nil, List.intercalate_singleton,
                List.intercalate_cons_cons, List.append_assoc] at h
              obtain ⟨-, hrest⟩ := htext a b _ _ hxs (hmark _) h
              exact absurd ⟨_, hrest.symm⟩ hxs'
      | cons a' as =>
          cases bs with
          | nil =>
              simp only [List.map_cons, List.map_nil, List.intercalate_singleton,
                List.intercalate_cons_cons, List.append_assoc] at h
              obtain ⟨-, hrest⟩ := htext a b _ _ (hmark _) hys h
              exact absurd ⟨_, hrest⟩ hys'
          | cons b' bs =>
              simp only [List.map_cons, List.intercalate_cons_cons, List.append_assoc] at h
              obtain ⟨rfl, hrest⟩ := htext a b _ _ (hmark _) (hmark _) h
              have hnext : mark.intercalate ((a' :: as).map text) ++ xs
                  = mark.intercalate ((b' :: bs).map text) ++ ys := List.append_cancel_left hrest
              obtain ⟨htail, rfl⟩ := ih (List.cons_ne_nil _ _) (List.cons_ne_nil _ _) hnext
              exact ⟨congrArg (a :: ·) htail, rfl⟩

/-! ### Lines -/

/-- A line ends at its line feed. -/
theorem lines_append_cons {l : List Char} (hl : '\n' ∉ l) (cs : List Char) :
    lines (l ++ '\n' :: cs) = l :: lines cs := by
  induction l with
  | nil => rfl
  | cons c l ih =>
      obtain ⟨hc, hl⟩ := not_or.mp (List.mem_cons.not.mp hl)
      rw [List.cons_append, lines, if_neg (Ne.symm hc), ih hl]

/-- A character other than a line feed is added to the first line. -/
theorem exists_lines_cons {c : Char} (hc : c ≠ '\n') (cs : List Char) :
    ∃ l ls, lines cs = l :: ls ∧ lines (c :: cs) = (c :: l) :: ls := by
  have hne : lines cs ≠ [] := by
    unfold lines
    grind
  obtain ⟨l, ls, hlines⟩ := List.exists_cons_of_ne_nil hne
  refine ⟨l, ls, hlines, ?_⟩
  rw [lines, if_neg hc, hlines]

/-- There is one line more than line feeds. -/
theorem length_lines (cs : List Char) : (lines cs).length = cs.count '\n' + 1 := by
  induction cs with
  | nil => rfl
  | cons c cs ih =>
      by_cases hc : c = '\n'
      · rw [hc, lines, if_pos rfl, List.length_cons, ih, List.count_cons_self]
      · obtain ⟨l, ls, hlines, hcons⟩ := exists_lines_cons hc cs
        rw [hlines] at ih
        rw [hcons, List.count_cons_of_ne hc]
        exact ih

/-- The lines of a text, with line feeds between them, are the text. -/
theorem intercalate_lines (cs : List Char) : ['\n'].intercalate (lines cs) = cs := by
  induction cs with
  | nil => rfl
  | cons c cs ih =>
      by_cases hc : c = '\n'
      · have hne : lines cs ≠ [] := by
          rw [← List.length_pos_iff, length_lines]
          omega
        rw [hc, lines, if_pos rfl, List.intercalate_cons_of_ne_nil hne, ih]
        rfl
      · obtain ⟨l, ls, hlines, hcons⟩ := exists_lines_cons hc cs
        rw [hlines] at ih
        rw [hcons, ← ih]
        cases ls with
        | nil => simp
        | cons l' ls => simp [List.intercalate_cons_cons]

/-- No line has a line feed in it. -/
theorem not_mem_of_mem_lines {cs l : List Char} (hl : l ∈ lines cs) : '\n' ∉ l := by
  induction cs generalizing l with
  | nil =>
      rw [List.mem_singleton.mp hl]
      exact List.not_mem_nil
  | cons c cs ih =>
      by_cases hc : c = '\n'
      · rw [hc, lines, if_pos rfl] at hl
        rcases List.mem_cons.mp hl with rfl | hl
        · exact List.not_mem_nil
        · exact ih hl
      · obtain ⟨l', ls, hlines, hcons⟩ := exists_lines_cons hc cs
        rw [hlines] at ih
        rw [hcons] at hl
        rcases List.mem_cons.mp hl with rfl | hl
        · exact List.not_mem_cons_of_ne_of_not_mem (Ne.symm hc) (ih List.mem_cons_self)
        · exact ih (List.mem_cons_of_mem _ hl)

/-- Lines without breaks can be told apart from each other and from a last line, which is known by
how it begins. -/
theorem lines_append_inj {begin : List Char} {ls ls' : List (List Char)}
    (hls : ∀ l ∈ ls, '\n' ∉ l ∧ ∀ rest, ¬ begin <+: l ++ rest)
    (hls' : ∀ l ∈ ls', '\n' ∉ l ∧ ∀ rest, ¬ begin <+: l ++ rest)
    (hxs : begin <+: xs) (hys : begin <+: ys)
    (h : ls.flatMap (· ++ ['\n']) ++ xs = ls'.flatMap (· ++ ['\n']) ++ ys) :
    ls = ls' ∧ xs = ys := by
  induction ls generalizing ls' with
  | nil =>
      cases ls' with
      | nil => exact ⟨rfl, by simpa using h⟩
      | cons l' ls' =>
          simp only [List.flatMap_nil, List.nil_append, List.flatMap_cons, List.append_assoc] at h
          exact absurd (h ▸ hxs) ((hls' l' List.mem_cons_self).2 _)
  | cons l ls ih =>
      cases ls' with
      | nil =>
          simp only [List.flatMap_nil, List.nil_append, List.flatMap_cons, List.append_assoc] at h
          exact absurd (h ▸ hys) ((hls l List.mem_cons_self).2 _)
      | cons l' ls' =>
          obtain ⟨hl, hrest⟩ := List.forall_mem_cons.mp hls
          obtain ⟨hl', hrest'⟩ := List.forall_mem_cons.mp hls'
          simp only [List.flatMap_cons, List.append_assoc, List.cons_append, List.nil_append] at h
          obtain ⟨rfl, hlines⟩ := append_cons_inj hl.1 hl'.1 h
          obtain ⟨htail, rfl⟩ := ih hrest hrest' hlines
          exact ⟨congrArg (l :: ·) htail, rfl⟩

/-! ### Trimmed texts -/

/-- A text is what is left of it and the characters that are dropped at its end. -/
theorem exists_eq_dropEndWhile_append (p : Char → Bool) (cs : List Char) :
    ∃ dropped, cs = dropEndWhile p cs ++ dropped ∧ ∀ c ∈ dropped, p c = true := by
  refine ⟨(cs.reverse.takeWhile p).reverse, ?_, ?_⟩
  · rw [dropEndWhile, ← List.reverse_append, List.takeWhile_append_dropWhile, List.reverse_reverse]
  · intro c hc
    exact List.all_eq_true.mp List.all_takeWhile c (List.mem_reverse.mp hc)

/-- What is left does not end with the property. -/
theorem notNext_reverse_dropEndWhile (p : Char → Bool) (cs : List Char) :
    NotNext p (dropEndWhile p cs).reverse := by
  rw [dropEndWhile, List.reverse_reverse]
  exact notNext_dropWhile p _

/-- Whether a text has no white space at either end. -/
def Trimmed (cs : List Char) : Prop :=
  NotNext isBlank cs ∧ NotNext isBlank cs.reverse

/-- Trimming leaves a trimmed text as it is. -/
theorem Trimmed.trimChars_eq {cs : List Char} (h : Trimmed cs) : trimChars cs = cs := by
  rw [trimChars, dropEndWhile, h.1.dropWhile_eq, h.2.dropWhile_eq, List.reverse_reverse]

/-- A text without blanks is trimmed. -/
theorem trimmed_of_forall {cs : List Char} (h : ∀ c ∈ cs, isBlank c = false) : Trimmed cs := by
  constructor
  · intro c hc
    exact h c (List.mem_of_head? hc)
  · intro c hc
    exact h c (List.mem_reverse.mp (List.mem_of_head? hc))

/-- An integer is trimmed. -/
theorem trimmed_int_repr (z : Int) : Trimmed z.repr.toList := by
  refine trimmed_of_forall fun c hc => ?_
  have hpart := isSignOrDigit_of_mem_repr hc
  have hcode : c.toNat = 45 ∨ 48 ≤ c.toNat ∧ c.toNat ≤ 57 := by
    simp only [isSignOrDigit, Bool.or_eq_true, beq_iff_eq, Char.isDigit, Bool.and_eq_true,
      decide_eq_true_eq] at hpart
    rcases hpart with rfl | hdigit
    · exact .inl rfl
    · exact .inr hdigit
  simp only [isBlank, Bool.or_eq_false_iff, Bool.and_eq_false_iff, decide_eq_false_iff_not,
    beq_eq_false_iff_ne]
  omega

/-- What trimming leaves is trimmed. -/
theorem trimmed_trimChars (cs : List Char) : Trimmed (trimChars cs) := by
  have hbegin : trimChars cs <+: cs.dropWhile isBlank := by
    have hend := List.dropWhile_suffix isBlank (l := (cs.dropWhile isBlank).reverse)
    simpa [trimChars, dropEndWhile] using List.reverse_prefix.mpr hend
  constructor
  · intro c hc
    obtain ⟨rest, hrest⟩ := List.head?_eq_some_iff.mp hc
    obtain ⟨more, hmore⟩ := hbegin
    refine notNext_dropWhile isBlank cs c ?_
    rw [← hmore, hrest]
    rfl
  · exact notNext_reverse_dropEndWhile isBlank _

end Pathwise.Text
