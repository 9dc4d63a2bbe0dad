import Pathwise.SExpr.Reader

/-!
# Reading S-expressions

What reading does to an expression that was written in canonical form, and what it makes of a text
without quotes.

* **Subexpressions** (`SExpr.parts`): an expression has itself and the subexpressions of its items.
* **Canonical texts** (`SExpr.readAll_itemsText`): expressions whose atoms are words are read back
  from their texts. Scanning gives their tokens, whatever follows that ends a word
  (`SExpr.scanFrom_text`), and the tokens are assembled to the expressions, whichever lists are open
  (`SExpr.assemble_tokens`).
* **Texts without quotes** (`SExpr.word_of_readAll`): all atoms that are read from them are words.
* **Printed expressions** (`SExpr.readAll_intercalate_text`): reading gives back what was printed,
  all of it on one line. The reader knows of a character only whether it ends a word or begins a
  quote, so atoms may have any others in them.
-/

namespace Pathwise

namespace SExpr

/-! ### Subexpressions -/

/-- Induction over expressions: a list has a property if its items have it. -/
@[elab_as_elim]
theorem inductionOn {motive : SExpr → Prop} (e : SExpr) (atom : ∀ l t, motive (.atom l t))
    (list : ∀ l es, (∀ e ∈ es, motive e) → motive (.list l es)) : motive e := by
  refine @SExpr.rec motive (fun es => ∀ e ∈ es, motive e) atom list ?_ ?_ e
  · intro e he
    cases he
  · intro e es ihe ihes u hu
    rcases List.mem_cons.mp hu with rfl | hu
    · exact ihe
    · exact ihes u hu

mutual

/-- The subexpressions of an expression, the expression itself first. -/
def parts : SExpr → List SExpr
  | atom l t => [atom l t]
  | list l es => list l es :: partsAll es

/-- The subexpressions of some expressions. -/
def partsAll : List SExpr → List SExpr
  | [] => []
  | e :: es => e.parts ++ partsAll es

end

variable {e u : SExpr} {es : List SExpr} {l : Nat}

/-- What is in expressions is in one of them. -/
theorem mem_partsAll : u ∈ partsAll es ↔ ∃ e ∈ es, u ∈ e.parts := by
  induction es with
  | nil => simp [partsAll]
  | cons e es ih => simp [partsAll, ih]

/-- An expression is in itself. -/
theorem mem_parts_self (e : SExpr) : e ∈ e.parts := by
  cases e <;> simp [parts]

/-- In a list is the list, and what is in its items. -/
theorem mem_parts_list : u ∈ (list l es).parts ↔ u = list l es ∨ ∃ e ∈ es, u ∈ e.parts := by
  rw [parts, List.mem_cons, mem_partsAll]

/-- What is in an item is in the list. -/
theorem mem_parts_item (he : e ∈ es) (hu : u ∈ e.parts) : u ∈ (list l es).parts :=
  mem_parts_list.mpr (.inr ⟨e, he, hu⟩)

/-- The subexpressions of a subexpression are subexpressions. -/
theorem parts_subset (e : SExpr) : ∀ u ∈ e.parts, u.parts ⊆ e.parts := by
  induction e using inductionOn with
  | atom l t =>
      intro u hu
      rw [parts, List.mem_singleton] at hu
      rw [hu]
      exact List.Subset.refl _
  | list l es ih =>
      intro u hu
      rcases mem_parts_list.mp hu with rfl | ⟨e, he, hu⟩
      · exact List.Subset.refl _
      · exact fun v hv => mem_parts_item he (ih e he u hu hv)

end SExpr

/-! ### Words -/

namespace Token

/-- A text that is read as one atom: it has no character that ends a word, and does not begin like
a quote. -/
structure Word (s : String) : Prop where
  ne_nil : s.toList ≠ []
  unquoted : s.toList.head? ≠ some '|' ∧ s.toList.head? ≠ some '"'
  inside : ∀ c ∈ s.toList, endsWord c = false

/-- A text without any character that ends a word is one, unless it begins like a quote. -/
theorem word_of_plain {t : String} (hne : t ≠ "") (hbar : t.toList.head? ≠ some '|')
    (hquote : t.toList.head? ≠ some '"')
    (hplain : ∀ c ∈ t.toList, c ∉ ['(', ')', ' ', '\t', '\n', '\r', ';']) : Word t := by
  refine ⟨by simpa using hne, ⟨hbar, hquote⟩, fun c hc => ?_⟩
  have hout := hplain c hc
  simp only [List.mem_cons, List.not_mem_nil, not_or] at hout
  simp [endsWord, isGap, hout]

/-- A word goes on with characters that do not end it. -/
theorem Word.extend {s t : String} {cs : List Char} (hs : Word s)
    (htext : t.toList = s.toList ++ cs) (hcs : ∀ c ∈ cs, endsWord c = false) : Word t := by
  obtain ⟨hne, hhead, hinside⟩ := hs
  obtain ⟨d, ds, hds⟩ := List.exists_cons_of_ne_nil hne
  rw [hds] at hhead hinside htext
  refine ⟨by simp [htext], ?_, ?_⟩
  · rw [htext]
    exact hhead
  · rw [htext]
    intro c hc
    exact (List.mem_append.mp hc).elim (hinside c) (hcs c)

/-- A text that begins with the end of a word, if it begins at all. -/
def Stops (cs : List Char) : Prop :=
  ∀ c, cs.head? = some c → endsWord c = true

/-- A word stops at the end of the text. -/
theorem stops_nil : Stops [] := nofun

/-- A word stops before a character that ends words. -/
theorem stops_cons {c : Char} {cs : List Char} (h : endsWord c = true) : Stops (c :: cs) := by
  rintro _ ⟨⟩
  exact h

/-- There is no line feed in a word. -/
theorem nextLine_of_inside {c : Char} (h : endsWord c = false) (l : Nat) : nextLine l c = l := by
  refine if_neg ?_
  rintro rfl
  cases h

/-- Inside a word, its characters are collected until it ends. -/
theorem scanFrom_word (l s : Nat) {cs rest : List Char} (hcs : ∀ c ∈ cs, endsWord c = false)
    (hrest : Stops rest) (chars : List Char) :
    scanFrom l (.word s chars) (cs ++ rest)
      = atom s (String.ofList (chars.reverse ++ cs)) :: scanFrom l .gap rest := by
  induction cs generalizing chars with
  | nil =>
      cases rest with
      | nil => simp [scanFrom, finish, atomOf]
      | cons c rest =>
          have hc : endsWord c = true := hrest c rfl
          simp [scanFrom, step, hc, atomOf]
  | cons c cs ih =>
      obtain ⟨hc, hcs⟩ := List.forall_mem_cons.mp hcs
      rw [List.cons_append, scanFrom]
      simp only [step, hc, Bool.false_eq_true, if_false, List.nil_append]
      rw [nextLine_of_inside hc, ih hcs, List.reverse_cons, List.append_assoc,
        List.singleton_append]

/-- The first character of a word begins a word. -/
theorem gapStep_of_word {s : String} (hs : Word s) {c : Char} {cs : List Char}
    (h : s.toList = c :: cs) (l : Nat) : gapStep l c = ([], .word l [c]) := by
  have hc : endsWord c = false := hs.inside c (by simp [h])
  have hquote := hs.unquoted
  simp only [h, List.head?_cons, ne_eq, Option.some.injEq] at hquote
  simp only [endsWord, isGap, Bool.or_eq_false_iff, beq_eq_false_iff_ne] at hc
  simp [gapStep, isGap, hc, hquote]

/-- A word is read as one atom. -/
theorem Word.scanFrom {s : String} (hs : Word s) (l : Nat) {rest : List Char} (hrest : Stops rest) :
    scanFrom l .gap (s.toList ++ rest) = atom l s :: scanFrom l .gap rest := by
  cases h : s.toList with
  | nil => exact absurd h hs.ne_nil
  | cons c cs =>
      have hinside : ∀ d ∈ c :: cs, endsWord d = false := h ▸ hs.inside
      obtain ⟨hc, hcs⟩ := List.forall_mem_cons.mp hinside
      rw [List.cons_append, Token.scanFrom, step, gapStep_of_word hs h]
      simp only [List.nil_append]
      rw [nextLine_of_inside hc, scanFrom_word l l hcs hrest, List.reverse_singleton,
        List.singleton_append, ← h, String.ofList_toList]

theorem scanFrom_opening (l : Nat) (rest : List Char) :
    scanFrom l .gap ('(' :: rest) = opening l :: scanFrom l .gap rest := rfl

theorem scanFrom_closing (l : Nat) (rest : List Char) :
    scanFrom l .gap (')' :: rest) = closing l :: scanFrom l .gap rest := rfl

theorem scanFrom_space (l : Nat) (rest : List Char) :
    scanFrom l .gap (' ' :: rest) = scanFrom l .gap rest := rfl

end Token

/-! ### Canonical texts -/

namespace SExpr

/-- An expression as it is read from a text without line breaks and quotes: it is all on the first
line, and its atoms are words. -/
def Canonical (e : SExpr) : Prop :=
  ∀ u ∈ e.parts, u.line = 1 ∧ ∀ l t, u = atom l t → Token.Word t

variable {e u : SExpr} {es : List SExpr} {l : Nat} {t : String}

/-- A word on the first line is canonical. -/
theorem canonical_atom (ht : Token.Word t) : (atom 1 t).Canonical := by
  intro u hu
  rw [parts, List.mem_singleton] at hu
  subst hu
  refine ⟨rfl, ?_⟩
  rintro _ _ ⟨⟩
  exact ht

/-- A list on the first line is canonical if its items are. -/
theorem canonical_list (hes : ∀ e ∈ es, e.Canonical) : (list 1 es).Canonical := by
  intro u hu
  rcases mem_parts_list.mp hu with rfl | ⟨e, he, hu⟩
  · exact ⟨rfl, nofun⟩
  · exact hes e he u hu

/-- The items of a canonical list are canonical. -/
theorem Canonical.item (h : (list l es).Canonical) (he : e ∈ es) : e.Canonical :=
  fun u hu => h u (mem_parts_item he hu)

mutual

/-- The tokens of an expression that is all on one line. -/
def tokens : SExpr → List Token
  | atom l t => [.atom l t]
  | list l es => .opening l :: (tokensAll es ++ [.closing l])

/-- The tokens of some expressions. -/
def tokensAll : List SExpr → List Token
  | [] => []
  | e :: es => e.tokens ++ tokensAll es

end

theorem tokensAll_cons (e : SExpr) (es : List SExpr) :
    tokensAll (e :: es) = e.tokens ++ tokensAll es := by
  rw [tokensAll]

/-- The canonical text of some items. -/
def itemsText (es : List SExpr) : List Char :=
  [' '].intercalate (es.map fun e => e.text.toList)

/-- The texts of expressions are written one by one. -/
theorem texts_eq (es : List SExpr) : texts es = es.map text := by
  induction es with
  | nil => rfl
  | cons e es ih => rw [texts, ih, List.map_cons]

/-- The characters of a list's text: its items between parentheses. -/
theorem toList_text_list (l : Nat) (es : List SExpr) :
    (list l es).text.toList = '(' :: (itemsText es ++ [')']) := by
  simp [text, itemsText, texts_eq, String.toList_intercalate, Function.comp_def]

/-- Scanning the texts of some items that can each be scanned. -/
theorem scanFrom_itemsText {es : List SExpr}
    (h : ∀ e ∈ es, ∀ rest, Token.Stops rest →
      Token.scanFrom 1 .gap (e.text.toList ++ rest) = e.tokens ++ Token.scanFrom 1 .gap rest)
    {rest : List Char} (hrest : Token.Stops rest) :
    Token.scanFrom 1 .gap (itemsText es ++ rest) = tokensAll es ++ Token.scanFrom 1 .gap rest := by
  induction es with
  | nil => rfl
  | cons e es ih =>
      obtain ⟨he, hes⟩ := List.forall_mem_cons.mp h
      cases es with
      | nil => simpa [itemsText, tokensAll] using he rest hrest
      | cons e' es =>
          have htext : itemsText (e :: e' :: es) ++ rest =
              e.text.toList ++ ' ' :: (itemsText (e' :: es) ++ rest) := by
            simp [itemsText, List.intercalate_cons_cons]
          rw [htext, he _ (Token.stops_cons rfl), Token.scanFrom_space, ih hes, tokensAll_cons e,
            List.append_assoc]

/-- Scanning the canonical text of an expression gives its tokens. -/
theorem scanFrom_text (he : e.Canonical) {rest : List Char} (hrest : Token.Stops rest) :
    Token.scanFrom 1 .gap (e.text.toList ++ rest) = e.tokens ++ Token.scanFrom 1 .gap rest := by
  induction e using inductionOn generalizing rest with
  | atom l t =>
      obtain ⟨hline, hword⟩ := he _ (mem_parts_self _)
      obtain rfl : l = 1 := hline
      exact (hword 1 t rfl).scanFrom 1 hrest
  | list l es ih =>
      obtain rfl : l = 1 := (he _ (mem_parts_self _)).1
      have hclosing : Token.Stops (')' :: rest) := Token.stops_cons rfl
      have hitems :=
        scanFrom_itemsText (fun e hmem _ hstops => ih e hmem (he.item hmem) hstops) hclosing
      rw [toList_text_list, List.cons_append, List.append_assoc, List.singleton_append,
        Token.scanFrom_opening, hitems, Token.scanFrom_closing, tokens]
      simp

/-- The tokens of an expression are assembled to it, whatever is open. -/
theorem assemble_tokens (e : SExpr) (os : List Open) (done : List SExpr) (ts : List Token) :
    assemble os done (e.tokens ++ ts) = assemble (place e os done).1 (place e os done).2 ts := by
  induction e using inductionOn generalizing os done ts with
  | atom l t => rw [tokens, List.singleton_append, assemble]
  | list l es ih =>
      have hitems (acc : List SExpr) (ts : List Token) :
          assemble (⟨l, acc⟩ :: os) done (tokensAll es ++ ts)
            = assemble (⟨l, es.reverse ++ acc⟩ :: os) done ts := by
        induction es generalizing acc with
        | nil => rfl
        | cons e es ihes =>
            obtain ⟨he, hes⟩ := List.forall_mem_cons.mp ih
            rw [tokensAll_cons, List.append_assoc, he, place, ihes hes, List.reverse_cons,
              List.append_assoc, List.singleton_append]
      rw [tokens, List.cons_append, List.append_assoc, assemble, hitems, List.singleton_append,
        assemble, List.append_nil, List.reverse_reverse]

/-- Outside of lists, expressions are finished one after the other. -/
theorem assemble_tokensAll (es done : List SExpr) (ts : List Token) :
    assemble [] done (tokensAll es ++ ts) = assemble [] (es.reverse ++ done) ts := by
  induction es generalizing done with
  | nil => rfl
  | cons e es ih =>
      rw [tokensAll_cons, List.append_assoc, assemble_tokens, place, ih, List.reverse_cons,
        List.append_assoc, List.singleton_append]

/-- **Canonical texts are read back.** -/
theorem readAll_itemsText (hes : ∀ e ∈ es, e.Canonical) : readAll (itemsText es) = .ok es := by
  have hscan := scanFrom_itemsText (fun e he _ => scanFrom_text (hes e he)) Token.stops_nil
  have hassemble := assemble_tokensAll es [] []
  rw [List.append_nil] at hscan
  rw [readAll, Token.scan, hscan]
  rw [List.append_nil, List.append_nil] at hassemble
  rw [Token.scanFrom, Token.finish, List.append_nil, hassemble, assemble, List.reverse_reverse]

/-- A canonical expression is read back from its text. -/
theorem readAll_text (he : e.Canonical) : readAll e.text.toList = .ok [e] := by
  have hread := readAll_itemsText (List.forall_mem_singleton.mpr he)
  simpa [itemsText] using hread

end SExpr

/-! ### Texts without quotes -/

namespace Token

/-- Whether a mode is inside a quote. -/
def Mode.isQuote : Mode → Bool
  | .symbol _ _ => true
  | .string _ _ => true
  | _ => false

/-- Whether a quote begins somewhere in a text that starts on line `l` in a given mode. -/
def quotes (l : Nat) (m : Mode) : List Char → Bool
  | [] => false
  | c :: cs => (step l c m).2.isQuote || quotes (nextLine l c) (step l c m).2 cs

/-- What a mode has collected is a word. -/
def Mode.Unquoted : Mode → Prop
  | .word _ cs => Word (String.ofList cs.reverse)
  | m => m.isQuote = false

variable {l : Nat} {m : Mode} {c : Char}

/-- A character between expressions that begins no quote finishes no atom, and leads to no quote. -/
theorem gapStep_unquoted (hquote : (gapStep l c).2.isQuote = false) :
    (gapStep l c).2.Unquoted ∧ ∀ line s, atom line s ∉ (gapStep l c).1 := by
  unfold gapStep at hquote ⊢
  by_cases hgap : isGap c = true
  · rw [if_pos hgap]
    exact ⟨rfl, nofun⟩
  rw [if_neg hgap] at hquote ⊢
  by_cases hcomment : c = ';'
  · rw [if_pos hcomment]
    exact ⟨rfl, nofun⟩
  rw [if_neg hcomment] at hquote ⊢
  by_cases hopening : c = '('
  · rw [if_pos hopening]
    exact ⟨rfl, by simp⟩
  rw [if_neg hopening] at hquote ⊢
  by_cases hclosing : c = ')'
  · rw [if_pos hclosing]
    exact ⟨rfl, by simp⟩
  rw [if_neg hclosing] at hquote ⊢
  by_cases hbar : c = '|'
  · rw [if_pos hbar] at hquote
    cases hquote
  rw [if_neg hbar] at hquote ⊢
  by_cases hdouble : c = '"'
  · rw [if_pos hdouble] at hquote
    cases hquote
  rw [if_neg hdouble]
  refine ⟨⟨by simp, by simp [hbar, hdouble], ?_⟩, nofun⟩
  simp [endsWord, hgap, hcomment, hopening, hclosing]

/-- A step outside quotes goes on outside quotes, and completes only words. -/
theorem step_unquoted (hm : m.Unquoted) (hquote : (step l c m).2.isQuote = false) :
    (step l c m).2.Unquoted ∧ ∀ line s, atom line s ∈ (step l c m).1 → Word s := by
  cases m with
  | gap =>
      obtain ⟨hunquoted, hnone⟩ := gapStep_unquoted hquote
      exact ⟨hunquoted, fun line s hs => absurd hs (hnone line s)⟩
  | comment =>
      refine ⟨?_, nofun⟩
      unfold step
      by_cases hc : c = '\n'
      · rw [if_pos hc]
        rfl
      · rw [if_neg hc]
        rfl
  | word s cs =>
      unfold step at hquote ⊢
      by_cases hc : endsWord c = true
      · simp only [hc, if_true] at hquote ⊢
        obtain ⟨hunquoted, hnone⟩ := gapStep_unquoted hquote
        refine ⟨hunquoted, fun line s' hs => ?_⟩
        rcases List.mem_cons.mp hs with hs | hs
        · cases hs
          exact hm
        · exact absurd hs (hnone line s')
      · have htext : (String.ofList (c :: cs).reverse).toList
            = (String.ofList cs.reverse).toList ++ [c] := by simp
        simp only [hc] at hquote ⊢
        refine ⟨Word.extend hm htext ?_, nofun⟩
        simpa using hc
  | symbol s cs => cases hm
  | string s cs => cases hm

/-- The atoms of a text without quotes are words. -/
theorem word_of_mem_scanFrom {cs : List Char} (hm : m.Unquoted) (hquote : quotes l m cs = false) :
    ∀ line s, atom line s ∈ scanFrom l m cs → Word s := by
  induction cs generalizing l m with
  | nil =>
      intro line s hs
      cases m with
      | word s' cs =>
          cases List.mem_singleton.mp hs
          exact hm
      | symbol s' cs => cases hm
      | string s' cs => cases hm
      | gap => cases hs
      | comment => cases hs
  | cons c cs ih =>
      obtain ⟨hstep, hrest⟩ := Bool.or_eq_false_iff.mp hquote
      obtain ⟨hunquoted, hword⟩ := step_unquoted hm hstep
      intro line s hs
      rcases List.mem_append.mp hs with hs | hs
      · exact hword line s hs
      · exact ih hunquoted hrest line s hs

end Token

namespace SExpr

/-- All atoms of an expression have a property. -/
def Atoms (A : String → Prop) (e : SExpr) : Prop :=
  ∀ l t, atom l t ∈ e.parts → A t

variable {A : String → Prop} {os : List Open} {done es : List SExpr} {ts : List Token}

/-- An atom has the property of its text. -/
theorem atoms_atom {l : Nat} {t : String} (h : A t) : (atom l t).Atoms A := by
  intro l' t' hmem
  rw [parts, List.mem_singleton] at hmem
  cases hmem
  exact h

/-- The atoms of a list are those of its items. -/
theorem atoms_list {l : Nat} (h : ∀ e ∈ es, e.Atoms A) : (list l es).Atoms A := by
  intro l' t hmem
  rcases mem_parts_list.mp hmem with hmem | ⟨e, he, hmem⟩
  · cases hmem
  · exact h e he l' t hmem

/-- Placing an expression brings in no other atoms than its own. -/
theorem atoms_place {e : SExpr} {os' : List Open} {done' : List SExpr}
    (h : place e os done = (os', done')) (he : e.Atoms A) (hos : ∀ o ∈ os, ∀ u ∈ o.items, u.Atoms A)
    (hdone : ∀ u ∈ done, u.Atoms A) :
    (∀ o ∈ os', ∀ u ∈ o.items, u.Atoms A) ∧ ∀ u ∈ done', u.Atoms A := by
  cases os with
  | nil =>
      cases h
      exact ⟨nofun, List.forall_mem_cons.mpr ⟨he, hdone⟩⟩
  | cons o os =>
      cases h
      obtain ⟨ho, hos⟩ := List.forall_mem_cons.mp hos
      exact ⟨List.forall_mem_cons.mpr ⟨List.forall_mem_cons.mpr ⟨he, ho⟩, hos⟩, hdone⟩

/-- What is assembled has no atoms but those of the tokens. -/
theorem atoms_assemble (hts : ∀ l t, .atom l t ∈ ts → A t)
    (hos : ∀ o ∈ os, ∀ u ∈ o.items, u.Atoms A) (hdone : ∀ u ∈ done, u.Atoms A)
    (h : assemble os done ts = .ok es) : ∀ e ∈ es, e.Atoms A := by
  induction os, done, ts using assemble.induct with
  | case1 done =>
      cases h
      intro e he
      exact hdone e (List.mem_reverse.mp he)
  | case2 | case4 | case7 | case8 =>
      rw [assemble] at h
      cases h
  | case3 os done l ts ih =>
      rw [assemble] at h
      refine ih (fun l' t hmem => hts l' t (List.mem_cons_of_mem _ hmem)) ?_ hdone h
      exact List.forall_mem_cons.mpr ⟨nofun, hos⟩
  | case5 o os done line ts os' done' hplace ih =>
      rw [assemble, hplace] at h
      obtain ⟨ho, hos⟩ := List.forall_mem_cons.mp hos
      have hlist : (list o.line o.items.reverse).Atoms A :=
        atoms_list fun u hu => ho u (List.mem_reverse.mp hu)
      obtain ⟨hos', hdone'⟩ := atoms_place hplace hlist hos hdone
      exact ih (fun l' t hmem => hts l' t (List.mem_cons_of_mem _ hmem)) hos' hdone' h
  | case6 os done l t ts os' done' hplace ih =>
      rw [assemble, hplace] at h
      have hatom : (atom l t).Atoms A := atoms_atom (hts l t List.mem_cons_self)
      obtain ⟨hos', hdone'⟩ := atoms_place hplace hatom hos hdone
      exact ih (fun l' t' hmem => hts l' t' (List.mem_cons_of_mem _ hmem)) hos' hdone' h

/-- **The atoms of a text without quotes are words.** -/
theorem word_of_readAll {cs : List Char} {es : List SExpr}
    (hquote : Token.quotes 1 .gap cs = false) (h : readAll cs = .ok es) :
    ∀ e ∈ es, e.Atoms Token.Word :=
  atoms_assemble (Token.word_of_mem_scanFrom (m := .gap) rfl hquote) (List.forall_mem_nil _)
    (List.forall_mem_nil _) h

/-! ### Printed expressions -/

mutual

/-- An expression as it is on one line. -/
def onLine (l : Nat) : SExpr → SExpr
  | atom _ t => atom l t
  | list _ es => list l (onLineAll l es)

/-- Expressions as they are on one line. -/
def onLineAll (l : Nat) : List SExpr → List SExpr
  | [] => []
  | e :: es => e.onLine l :: onLineAll l es

end

/-- Expressions are moved to a line one by one. -/
theorem onLineAll_eq (l : Nat) (es : List SExpr) : onLineAll l es = es.map (onLine l) := by
  induction es with
  | nil => rfl
  | cons e es ih => rw [onLineAll, ih, List.map_cons]

/-- The text of an expression does not tell its line. -/
theorem text_onLine (l : Nat) (e : SExpr) : (e.onLine l).text = e.text := by
  induction e using inductionOn with
  | atom _ t => rfl
  | list _ es ih =>
      have hitems : (es.map (onLine l)).map text = es.map text := by
        rw [List.map_map]
        exact List.map_congr_left ih
      rw [onLine, text, text, texts_eq, texts_eq, onLineAll_eq, hitems]

/-- An expression made of words is canonical once it is moved to the first line. -/
theorem canonical_onLine {e : SExpr} (he : e.Atoms Token.Word) : (e.onLine 1).Canonical := by
  induction e using inductionOn with
  | atom l t => exact canonical_atom (he l t (mem_parts_self _))
  | list l es ih =>
      rw [onLine, onLineAll_eq]
      refine canonical_list fun u hu => ?_
      obtain ⟨e, hmem, rfl⟩ := List.mem_map.mp hu
      exact ih e hmem fun l' t ht => he l' t (mem_parts_item hmem ht)

/-- **Reading undoes printing.** Expressions are printed with one space between them, and read back
as they were, on the first line. -/
theorem readAll_intercalate_text (es : List SExpr)
    (hatoms : ∀ l t, atom l t ∈ partsAll es →
      t ≠ "" ∧ t.toList.head? ≠ some '|' ∧ t.toList.head? ≠ some '"' ∧
        ∀ c ∈ t.toList, c ∉ ['(', ')', ' ', '\t', '\n', '\r', ';']) :
    readAll (" ".intercalate (es.map text)).toList = .ok (es.map (onLine 1)) := by
  have hcanonical : ∀ u ∈ es.map (onLine 1), u.Canonical := by
    intro u hu
    obtain ⟨e, he, rfl⟩ := List.mem_map.mp hu
    refine canonical_onLine fun l t ht => ?_
    obtain ⟨hne, hbar, hquote, hplain⟩ := hatoms l t (mem_partsAll.mpr ⟨e, he, ht⟩)
    exact Token.word_of_plain hne hbar hquote hplain
  have hprinted : (" ".intercalate (es.map text)).toList = itemsText (es.map (onLine 1)) := by
    simp [itemsText, String.toList_intercalate, Function.comp_def, text_onLine]
  rw [hprinted]
  exact readAll_itemsText hcanonical

/-- Lines are forgotten, and a word may have quotes inside. -/
theorem readAll_intercalate_text_nested :
    readAll (" ".intercalate
        ([list 7 [atom 7 "a", list 9 [list 9 []], atom 8 "b|\""], atom 2 "x"].map text)).toList =
      .ok [list 1 [atom 1 "a", list 1 [list 1 []], atom 1 "b|\""], atom 1 "x"] := by
  refine readAll_intercalate_text
    [list 7 [atom 7 "a", list 9 [list 9 []], atom 8 "b|\""], atom 2 "x"] ?_
  intro l t ht
  simp only [partsAll, parts, List.cons_append, List.nil_append, List.append_nil, List.mem_cons,
    List.not_mem_nil, or_false, reduceCtorEq, false_or, atom.injEq] at ht
  rcases ht with ⟨-, rfl⟩ | ⟨-, rfl⟩ | ⟨-, rfl⟩
  · simp
  · simp
  · simp

end SExpr

end Pathwise
