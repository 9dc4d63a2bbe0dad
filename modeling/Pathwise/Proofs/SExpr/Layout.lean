import Pathwise.Proofs.SExpr.Reading

/-!
# Where expressions stand

A grammar for texts of expressions, in which each expression has its place, and what the reader does
in terms of it.

* **The grammar** (`SExpr.StandIn`): expressions stand one after the other, with gaps of blanks and
  comments around them. Quoted symbols, strings and lists may run on over further lines; the line
  of an expression is that of its first character.
* **Texts begin in few ways** (`SExpr.Beginning`), and each of them takes something off the text.
  That gives an induction over what is still to be read (`SExpr.read_induction`).
* **What is read stands in the text** (`SExpr.standIn_of_readAll`), at any depth
  (`SExpr.StandIn.written`).
* **What is refused stands there, too** (`SExpr.occupied_of_readAll_error`): a refusal names a line
  on which there is something other than a line feed.
-/

namespace Pathwise

/-! ### Scanning -/

namespace Token

/-- Line feeds are counted one character at a time. -/
theorem nextLine_add_count (l : Nat) (c : Char) (cs : List Char) :
    nextLine l c + cs.count '\n' = l + (c :: cs).count '\n' := by
  unfold nextLine
  rw [List.count_cons]
  grind

/-- A mode collects characters, and the line feeds among them count. -/
theorem scanFrom_collect (f : List Char → Mode) (text : List Char)
    (hstep : ∀ c ∈ text, ∀ l chars, step l c (f chars) = ([], f (c :: chars))) (l : Nat)
    (chars rest : List Char) :
    scanFrom l (f chars) (text ++ rest) =
      scanFrom (l + text.count '\n') (f (text.reverse ++ chars)) rest := by
  induction text generalizing l chars with
  | nil => rfl
  | cons c text ih =>
      obtain ⟨hc, htext⟩ := List.forall_mem_cons.mp hstep
      rw [List.cons_append, scanFrom]
      simp only [hc, List.nil_append]
      rw [ih htext, nextLine_add_count, List.reverse_cons, List.append_assoc, List.singleton_append]

/-- A comment goes on as long as there is no line feed. -/
theorem scanFrom_comment (l : Nat) {text : List Char} (htext : '\n' ∉ text) (rest : List Char) :
    scanFrom l .gap (';' :: (text ++ rest)) = scanFrom l .comment rest := by
  have hstep (c : Char) (hc : c ∈ text) (l' : Nat) (_ : List Char) :
      step l' c .comment = ([], .comment) := by
    have hne : c ≠ '\n' := fun h => htext (h ▸ hc)
    simp [step, hne]
  have hcollect := scanFrom_collect (fun _ => .comment) text hstep l [] rest
  rw [List.count_eq_zero.mpr htext] at hcollect
  exact hcollect

/-- A quoted symbol goes on as long as there is no second bar, also over further lines. -/
theorem scanFrom_symbol (l : Nat) {text : List Char} (htext : '|' ∉ text) (rest : List Char) :
    scanFrom l .gap ('|' :: (text ++ rest)) =
      scanFrom (l + text.count '\n') (.symbol l text.reverse) rest := by
  have hstep (c : Char) (hc : c ∈ text) (l' : Nat) (chars : List Char) :
      step l' c (.symbol l chars) = ([], .symbol l (c :: chars)) := by
    have hne : c ≠ '|' := fun h => htext (h ▸ hc)
    simp [step, hne]
  have hcollect := scanFrom_collect (.symbol l) text hstep l [] rest
  rw [List.append_nil] at hcollect
  exact hcollect

/-- A string goes on as long as there is no second quote, also over further lines. -/
theorem scanFrom_string (l : Nat) {text : List Char} (htext : '"' ∉ text) (rest : List Char) :
    scanFrom l .gap ('"' :: (text ++ rest)) =
      scanFrom (l + text.count '\n') (.string l (text.reverse ++ ['"'])) rest := by
  have hstep (c : Char) (hc : c ∈ text) (l' : Nat) (chars : List Char) :
      step l' c (.string l chars) = ([], .string l (c :: chars)) := by
    have hne : c ≠ '"' := fun h => htext (h ▸ hc)
    simp [step, hne]
  exact scanFrom_collect (.string l) text hstep l ['"'] rest

end Token

namespace SExpr

open Token (Stops Word scanFrom isGap endsWord)

/-! ### Places -/

/-- The line on which a text that starts on line 1 ends. -/
def lineAfter (text : List Char) : Nat :=
  text.count '\n' + 1

/-- A text that goes on ends as many lines later as it has line feeds. -/
theorem lineAfter_append (xs ys : List Char) :
    lineAfter (xs ++ ys) = lineAfter xs + ys.count '\n' := by
  unfold lineAfter
  rw [List.count_append]
  omega

/-- A character other than a line feed stays on the line. -/
theorem lineAfter_concat (xs : List Char) {c : Char} (hc : c ≠ '\n') :
    lineAfter (xs ++ [c]) = lineAfter xs := by
  have hcount : [c].count '\n' = 0 := List.count_eq_zero.mpr (by simpa using hc.symm)
  rw [lineAfter_append, hcount, Nat.add_zero]

/-- What may stand between expressions: blanks, and comments up to the ends of their lines. -/
inductive Gap : List Char → Prop
  | nil : Gap []
  | blank {c : Char} {cs : List Char} (hc : isGap c = true) (hcs : Gap cs) : Gap (c :: cs)
  | comment {text cs : List Char} (htext : '\n' ∉ text) (hcs : Gap cs) :
      Gap (';' :: (text ++ '\n' :: cs))

/-- The ways to write an atom. -/
inductive Spelled : String → List Char → Prop
  | word {t : String} (ht : Word t) : Spelled t t.toList
  | symbol {cs : List Char} (hcs : '|' ∉ cs) : Spelled (String.ofList cs) ('|' :: (cs ++ ['|']))
  | string {cs : List Char} (hcs : '"' ∉ cs) :
      Spelled (String.ofList ('"' :: (cs ++ ['"']))) ('"' :: (cs ++ ['"']))

/-- The text of an expression has come to its end where another one goes on. Lists and quotes mark
their own end; a word goes on until something ends it. -/
def Ends (text rest : List Char) : Prop :=
  text.head? = some '(' ∨ text.head? = some '|' ∨ text.head? = some '"' ∨ Stops rest

mutual

/-- An expression that is written as `text`, which stands after `before`: it has the line of its
first character, and so have all expressions in it. -/
inductive Stands : List Char → SExpr → List Char → Prop
  | atom {before text : List Char} {t : String} (h : Spelled t text) :
      Stands before (.atom (lineAfter before) t) text
  | list {before text : List Char} {es : List SExpr} (h : StandAll (before ++ ['(']) es text) :
      Stands before (.list (lineAfter before) es) ('(' :: (text ++ [')']))

/-- Expressions that are written one after the other, with gaps around them. -/
inductive StandAll : List Char → List SExpr → List Char → Prop
  | nil {before gap : List Char} (hgap : Gap gap) : StandAll before [] gap
  | cons {before gap text rest : List Char} {e : SExpr} {es : List SExpr} (hgap : Gap gap)
      (he : Stands (before ++ gap) e text) (hend : Ends text rest)
      (hes : StandAll (before ++ gap ++ text) es rest) :
      StandAll before (e :: es) (gap ++ text ++ rest)

end

/-- The end of a text may be a comment without a line feed. -/
def Trailing (tail : List Char) : Prop :=
  tail = [] ∨ ∃ text, tail = ';' :: text ∧ '\n' ∉ text

/-- The expressions of a text. -/
def StandIn (es : List SExpr) (cs : List Char) : Prop :=
  ∃ body tail, cs = body ++ tail ∧ StandAll [] es body ∧ Trailing tail

/-! ### Beginnings -/

/-- Two gaps in a row are a gap. -/
theorem Gap.append {gap rest : List Char} (hgap : Gap gap) (hrest : Gap rest) :
    Gap (gap ++ rest) := by
  induction hgap with
  | nil => exact hrest
  | blank hc _ ih => exact .blank hc ih
  | comment htext _ ih =>
      rw [List.cons_append, List.append_assoc]
      exact .comment htext ih

/-- Scanning passes over a gap, and counts its line feeds. -/
theorem scanFrom_gap {gap : List Char} (hgap : Gap gap) (l : Nat) (rest : List Char) :
    scanFrom l .gap (gap ++ rest) = scanFrom (l + gap.count '\n') .gap rest := by
  induction hgap generalizing l with
  | nil => rfl
  | @blank c cs hc _ ih =>
      have hstep : Token.step l c .gap = ([], .gap) := if_pos hc
      rw [List.cons_append, scanFrom, hstep, ← Token.nextLine_add_count]
      exact ih _
  | @comment text cs htext _ ih =>
      have hline : l + 1 + cs.count '\n' = l + (';' :: (text ++ '\n' :: cs)).count '\n' := by
        simp [List.count_append, List.count_eq_zero.mpr htext]
        omega
      rw [List.cons_append, List.append_assoc, Token.scanFrom_comment l htext, ← hline]
      exact ih (l + 1)

/-- A word can only end because something ends it. -/
theorem Ends.stops {t : String} {rest : List Char} (h : Ends t.toList rest) (ht : Word t) :
    Stops rest := by
  rcases h with hlist | hsymbol | hstring | hstops
  · have hinside := ht.inside '(' (List.mem_of_mem_head? hlist)
    cases hinside
  · exact absurd hsymbol ht.unquoted.1
  · exact absurd hstring ht.unquoted.2
  · exact hstops

/-- Scanning makes one token of an atom, with the line on which it begins. -/
theorem scanFrom_spelled {t : String} {text : List Char} (h : Spelled t text) (l : Nat)
    {rest : List Char} (hend : Ends text rest) :
    scanFrom l .gap (text ++ rest) = .atom l t :: scanFrom (l + text.count '\n') .gap rest := by
  cases h with
  | word ht =>
      have hbreak : '\n' ∉ t.toList := fun hmem => absurd (ht.inside _ hmem) (by decide)
      rw [ht.scanFrom l (hend.stops ht), List.count_eq_zero.mpr hbreak, Nat.add_zero]
  | @symbol cs hcs =>
      have hcount : ('|' :: (cs ++ ['|'])).count '\n' = cs.count '\n' := by simp
      rw [List.cons_append, List.append_assoc, Token.scanFrom_symbol l hcs, hcount,
        List.singleton_append, scanFrom]
      simp [Token.step, Token.atomOf, Token.nextLine]
  | @string cs hcs =>
      have hcount : ('"' :: (cs ++ ['"'])).count '\n' = cs.count '\n' := by simp
      rw [List.cons_append, List.append_assoc, Token.scanFrom_string l hcs, hcount,
        List.singleton_append, scanFrom]
      simp [Token.step, Token.atomOf, Token.nextLine]

/-- An atom begins with something other than a line feed. -/
theorem Spelled.exists_first {t : String} {text : List Char} (h : Spelled t text) :
    ∃ c rest, text = c :: rest ∧ c ≠ '\n' := by
  cases h with
  | word ht =>
      obtain ⟨c, rest, htext⟩ := List.exists_cons_of_ne_nil ht.ne_nil
      refine ⟨c, rest, htext, ?_⟩
      rintro rfl
      exact absurd (ht.inside '\n' (by simp [htext])) (by decide)
  | symbol hcs => exact ⟨'|', _, rfl, by decide⟩
  | string hcs => exact ⟨'"', _, rfl, by decide⟩

/-- A comment at the end of the text leaves no token. -/
theorem scanFrom_trailing {tail : List Char} (h : Trailing tail) (l : Nat) :
    scanFrom l .gap tail = [] := by
  rcases h with rfl | ⟨text, rfl, htext⟩
  · rfl
  · have hscan := Token.scanFrom_comment l htext []
    rw [List.append_nil] at hscan
    exact hscan

/-- A bar without a partner leaves a token for an open symbol, on the line of the bar. -/
theorem scanFrom_openSymbol {text : List Char} (htext : '|' ∉ text) (l : Nat) :
    scanFrom l .gap ('|' :: text) = [.openSymbol l] := by
  have hscan := Token.scanFrom_symbol l htext []
  rw [List.append_nil] at hscan
  exact hscan

/-- A quote without a partner leaves a token for an open string, on the line of the quote. -/
theorem scanFrom_openString {text : List Char} (htext : '"' ∉ text) (l : Nat) :
    scanFrom l .gap ('"' :: text) = [.openString l] := by
  have hscan := Token.scanFrom_string l htext []
  rw [List.append_nil] at hscan
  exact hscan

/-- The ways in which a text can begin. -/
inductive Beginning : List Char → Prop
  | trailing {tail : List Char} (h : Trailing tail) : Beginning tail
  | gap {gap rest : List Char} (hgap : Gap gap) (hne : gap ≠ []) : Beginning (gap ++ rest)
  | opening (rest : List Char) : Beginning ('(' :: rest)
  | closing (rest : List Char) : Beginning (')' :: rest)
  | atom {t : String} {text rest : List Char} (h : Spelled t text) (hend : Ends text rest) :
      Beginning (text ++ rest)
  | openSymbol {text : List Char} (htext : '|' ∉ text) : Beginning ('|' :: text)
  | openString {text : List Char} (htext : '"' ∉ text) : Beginning ('"' :: text)

/-- Every text begins in one of these ways. -/
theorem beginning (cs : List Char) : Beginning cs := by
  obtain _ | ⟨c, cs⟩ := cs
  · exact .trailing (.inl rfl)
  by_cases hgap : isGap c = true
  · exact .gap (.blank hgap .nil) (List.cons_ne_nil c [])
  by_cases hcomment : c = ';'
  · subst hcomment
    by_cases hbreak : '\n' ∈ cs
    · obtain ⟨text, rest, rfl, htext⟩ := List.eq_append_cons_of_mem hbreak
      have hcut : ';' :: (text ++ '\n' :: rest) = ';' :: (text ++ ['\n']) ++ rest := by simp
      rw [hcut]
      exact .gap (.comment htext .nil) (List.cons_ne_nil _ _)
    · exact .trailing (.inr ⟨cs, rfl, hbreak⟩)
  by_cases hopening : c = '('
  · subst hopening
    exact .opening cs
  by_cases hclosing : c = ')'
  · subst hclosing
    exact .closing cs
  by_cases hbar : c = '|'
  · subst hbar
    by_cases hclosed : '|' ∈ cs
    · obtain ⟨text, rest, rfl, htext⟩ := List.eq_append_cons_of_mem hclosed
      have hcut : '|' :: (text ++ '|' :: rest) = '|' :: (text ++ ['|']) ++ rest := by simp
      rw [hcut]
      exact .atom (.symbol htext) (.inr (.inl rfl))
    · exact .openSymbol hclosed
  by_cases hquote : c = '"'
  · subst hquote
    by_cases hclosed : '"' ∈ cs
    · obtain ⟨text, rest, rfl, htext⟩ := List.eq_append_cons_of_mem hclosed
      have hcut : '"' :: (text ++ '"' :: rest) = '"' :: (text ++ ['"']) ++ rest := by simp
      rw [hcut]
      exact .atom (.string htext) (.inr (.inr (.inl rfl)))
    · exact .openString hclosed
  -- a word runs up to the first character that ends it
  have hfirst : Word (String.ofList [c]) := by
    refine ⟨by simp, by simp [hbar, hquote], ?_⟩
    simp [endsWord, hgap, hcomment, hopening, hclosing]
  have hword : Word (String.ofList (c :: cs.takeWhile (!endsWord ·))) := by
    have htail : ∀ d ∈ cs.takeWhile (!endsWord ·), endsWord d = false := by
      intro d hd
      simpa using List.all_eq_true.mp List.all_takeWhile d hd
    exact hfirst.extend (by simp) htail
  have hstops : Stops (cs.dropWhile (!endsWord ·)) := by
    intro d hd
    simpa [hd] using List.head?_dropWhile_not (!endsWord ·) cs
  have hatom := Beginning.atom (.word hword) (.inr (.inr (.inr hstops)))
  rw [String.toList_ofList, List.cons_append, List.takeWhile_append_dropWhile] at hatom
  exact hatom

/-- Induction over what is still to be read. What is shown of it may depend on what stands before
it, on the lists that are open and the expressions that are finished there, and on what comes
out. -/
theorem read_induction
    {M : List Char → List Open → List SExpr → List Char →
      Except (Nat × Fault) (List SExpr) → Prop}
    (finished : ∀ before done tail, Trailing tail → M before [] done tail (.ok done.reverse))
    (unbalanced : ∀ before o os done tail, Trailing tail →
      M before (o :: os) done tail (.error (o.line, .unbalanced)))
    (gap : ∀ before os done gap rest r, Gap gap → M (before ++ gap) os done rest r →
      M before os done (gap ++ rest) r)
    (opening : ∀ before os done rest r,
      M (before ++ ['(']) (⟨lineAfter before, []⟩ :: os) done rest r →
        M before os done ('(' :: rest) r)
    (stray : ∀ before done rest,
      M before [] done (')' :: rest) (.error (lineAfter before, .strayClosing)))
    (closing : ∀ before o os done rest r,
      M (before ++ [')']) (place (.list o.line o.items.reverse) os done).1
        (place (.list o.line o.items.reverse) os done).2 rest r →
        M before (o :: os) done (')' :: rest) r)
    (atom : ∀ before os done t text rest r, Spelled t text → Ends text rest →
      M (before ++ text) (place (.atom (lineAfter before) t) os done).1
        (place (.atom (lineAfter before) t) os done).2 rest r →
        M before os done (text ++ rest) r)
    (openSymbol : ∀ before os done text,
      M before os done ('|' :: text) (.error (lineAfter before, .unterminatedSymbol)))
    (openString : ∀ before os done text,
      M before os done ('"' :: text) (.error (lineAfter before, .unterminatedString)))
    (before : List Char) (os : List Open) (done : List SExpr) (cs : List Char) :
    M before os done cs (assemble os done (scanFrom (lineAfter before) .gap cs)) := by
  -- by the length of the text: each way to begin takes something off it
  induction hlength : cs.length using Nat.strongRecOn generalizing before os done cs with
  | ind n ih =>
      subst hlength
      cases beginning cs with
      | trailing htail =>
          rw [scanFrom_trailing htail]
          obtain _ | ⟨o, os⟩ := os
          · exact finished before done cs htail
          · exact unbalanced before o os done cs htail
      | @gap text rest htext hne =>
          have hpos := List.length_pos_iff.mpr hne
          rw [scanFrom_gap htext, ← lineAfter_append]
          refine gap before os done text rest _ htext (ih rest.length ?_ _ _ _ _ rfl)
          rw [List.length_append]
          omega
      | opening rest =>
          have hrest := ih rest.length (Nat.lt_succ_self _) (before ++ ['('])
            (⟨lineAfter before, []⟩ :: os) done rest rfl
          rw [Token.scanFrom_opening, assemble]
          rw [lineAfter_concat before (by decide)] at hrest
          exact opening before os done rest _ hrest
      | closing rest =>
          rw [Token.scanFrom_closing]
          obtain _ | ⟨o, os⟩ := os
          · exact stray before done rest
          · have hrest := ih rest.length (Nat.lt_succ_self _) (before ++ [')'])
              (place (.list o.line o.items.reverse) os done).1
              (place (.list o.line o.items.reverse) os done).2 rest rfl
            rw [assemble]
            rw [lineAfter_concat before (by decide)] at hrest
            exact closing before o os done rest _ hrest
      | @atom t text rest hspelled hend =>
          obtain ⟨c, cs, hfirst, -⟩ := hspelled.exists_first
          rw [scanFrom_spelled hspelled _ hend, assemble, ← lineAfter_append]
          refine atom before os done t text rest _ hspelled hend (ih rest.length ?_ _ _ _ _ rfl)
          rw [List.length_append, hfirst, List.length_cons]
          omega
      | @openSymbol text htext =>
          rw [scanFrom_openSymbol htext, assemble]
          exact openSymbol before os done text
      | @openString text htext =>
          rw [scanFrom_openString htext, assemble]
          exact openString before os done text

/-! ### Reading -/

/-- A gap may be put in front of expressions. -/
theorem StandAll.after_gap {before gap text : List Char} {es : List SExpr} (hgap : Gap gap)
    (h : StandAll (before ++ gap) es text) : StandAll before es (gap ++ text) := by
  cases h with
  | nil hrest => exact .nil (hgap.append hrest)
  | cons hrest he hend hes =>
      rw [List.append_assoc before] at he hes
      rw [← List.append_assoc, ← List.append_assoc]
      exact .cons (hgap.append hrest) he hend hes

/-- Where an expression has ended in a longer text, it has ended in a shorter one. -/
theorem Ends.of_append {text body rest : List Char} (h : Ends text (body ++ rest)) :
    Ends text body := by
  refine h.imp_right (Or.imp_right (Or.imp_right fun hstops c hc => ?_))
  exact hstops c (by rw [List.head?_append, hc]; rfl)

/-- What is still to be read after `before`, where it is read to the end. Outside of lists, it is
expressions that are added to the finished ones. Inside a list, it begins with the other expressions
of that list, and goes on after its end. -/
inductive Reaches : List Char → List Open → List SExpr → List Char → List SExpr → Prop
  | finish {before body tail : List Char} {done es : List SExpr} (hes : StandAll before es body)
      (htail : Trailing tail) : Reaches before [] done (body ++ tail) (done.reverse ++ es)
  | close {before body rest : List Char} {o : Open} {os : List Open} {done es result : List SExpr}
      (hes : StandAll before es body)
      (hrest : Reaches (before ++ body ++ [')'])
        (SExpr.place (.list o.line (o.items.reverse ++ es)) os done).1
        (SExpr.place (.list o.line (o.items.reverse ++ es)) os done).2 rest result) :
      Reaches before (o :: os) done (body ++ ')' :: rest) result

namespace Reaches

variable {before gap text rest cs : List Char} {e : SExpr} {os : List Open}
  {done result : List SExpr}

/-- A gap may be put in front of what is still to be read. -/
theorem after_gap (hgap : Gap gap) (h : Reaches (before ++ gap) os done cs result) :
    Reaches before os done (gap ++ cs) result := by
  cases h with
  | finish hes htail =>
      rw [← List.append_assoc]
      exact .finish (hes.after_gap hgap) htail
  | close hes hrest =>
      rw [List.append_assoc before] at hrest
      rw [← List.append_assoc]
      exact .close (hes.after_gap hgap) hrest

/-- An expression may be put in front of what is still to be read: it goes into the innermost open
list. -/
theorem place (he : Stands before e text) (hend : Ends text rest)
    (h : Reaches (before ++ text) (SExpr.place e os done).1 (SExpr.place e os done).2 rest result) :
    Reaches before os done (text ++ rest) result := by
  have hfirst {es : List SExpr} {body : List Char} (hbody : Ends text body)
      (hes : StandAll (before ++ text) es body) : StandAll before (e :: es) (text ++ body) := by
    rw [← List.append_nil before] at he hes
    exact .cons .nil he hbody hes
  obtain _ | ⟨o, os⟩ := os
  · cases h with
    | @finish _ body tail _ es hes htail =>
        have hresult : (e :: done).reverse ++ es = done.reverse ++ e :: es := by simp
        rw [SExpr.place, ← List.append_assoc, hresult]
        exact .finish (hfirst hend.of_append hes) htail
  · cases h with
    | @close _ body rest _ _ _ es _ hes hrest =>
        have hitems : (e :: o.items).reverse ++ es = o.items.reverse ++ e :: es := by simp
        rw [hitems, List.append_assoc before] at hrest
        rw [← List.append_assoc]
        exact .close (hfirst hend.of_append hes) hrest

end Reaches

/-- What is read stands in the text, whatever is open. -/
theorem reaches_of_assemble {before cs : List Char} {os : List Open} {done result : List SExpr}
    (h : assemble os done (scanFrom (lineAfter before) .gap cs) = .ok result) :
    Reaches before os done cs result := by
  refine read_induction
    (M := fun before os done cs r => ∀ result, r = .ok result → Reaches before os done cs result)
    ?finished ?unbalanced ?gap ?opening ?stray ?closing ?atom ?openSymbol ?openString
    before os done cs result h
  case finished =>
    rintro before done tail htail _ ⟨⟩
    rw [← List.append_nil done.reverse]
    exact .finish (.nil .nil) htail
  case unbalanced =>
    intro before o os done tail _ result h
    cases h
  case gap =>
    intro before os done gap rest r hgap ih result h
    exact (ih result h).after_gap hgap
  case opening =>
    intro before os done rest r ih result h
    cases ih result h with
    | @close _ body rest _ _ _ es _ hes hrest =>
        have hplace : before ++ ['('] ++ body ++ [')'] = before ++ '(' :: (body ++ [')']) := by simp
        have htext : '(' :: (body ++ ')' :: rest) = '(' :: (body ++ [')']) ++ rest := by simp
        rw [hplace] at hrest
        rw [htext]
        exact .place (.list hes) (.inl rfl) hrest
  case stray =>
    intro before done rest result h
    cases h
  case closing =>
    intro before o os done rest r ih result h
    have hrest := ih result h
    rw [← List.append_nil o.items.reverse, ← List.append_nil before] at hrest
    exact .close (.nil .nil) hrest
  case atom =>
    intro before os done t text rest r hspelled hend ih result h
    exact .place (.atom hspelled) hend (ih result h)
  case openSymbol =>
    intro before os done text result h
    cases h
  case openString =>
    intro before os done text result h
    cases h

/-- **What is read stands in the text.** -/
theorem standIn_of_readAll {cs : List Char} {es : List SExpr} (h : readAll cs = .ok es) :
    StandIn es cs := by
  have hreaches : Reaches [] [] [] cs es := reaches_of_assemble h
  cases hreaches with
  | finish hes htail => exact ⟨_, _, rfl, hes, htail⟩

/-! ### Lines -/

/-- A text that stands after `before` has something other than a line feed on line `l`. -/
def Occupied (before cs : List Char) (l : Nat) : Prop :=
  ∃ pre c post, cs = pre ++ c :: post ∧ c ≠ '\n' ∧ l = lineAfter (before ++ pre)

namespace Occupied

variable {before text rest cs : List Char} {l : Nat}

/-- A character other than a line feed occupies the line on which the text begins. -/
theorem first {c : Char} (hc : c ≠ '\n') (cs : List Char) :
    Occupied before (c :: cs) (lineAfter before) :=
  ⟨[], c, cs, rfl, hc, by rw [List.append_nil]⟩

/-- A line stays occupied if the text begins earlier. -/
theorem after (h : Occupied (before ++ text) rest l) : Occupied before (text ++ rest) l := by
  obtain ⟨pre, c, post, rfl, hc, rfl⟩ := h
  exact ⟨text ++ pre, c, post, by simp, hc, by rw [List.append_assoc]⟩

end Occupied

/-- Placing an expression opens and closes no list. -/
theorem lines_place (e : SExpr) (os : List Open) (done : List SExpr) :
    (place e os done).1.map Open.line = os.map Open.line := by
  obtain _ | ⟨o, os⟩ := os
  · rfl
  · rfl

/-- A text is refused on the line of a list that is open, or on a line of its own. -/
theorem line_of_assemble_error {before cs : List Char} {os : List Open} {done : List SExpr}
    {l : Nat} {f : Fault}
    (h : assemble os done (scanFrom (lineAfter before) .gap cs) = .error (l, f)) :
    l ∈ os.map Open.line ∨ Occupied before cs l := by
  refine read_induction
    (M := fun before os _ cs r => ∀ l f, r = .error (l, f) →
      l ∈ os.map Open.line ∨ Occupied before cs l)
    ?finished ?unbalanced ?gap ?opening ?stray ?closing ?atom ?openSymbol ?openString
    before os done cs l f h
  case finished =>
    intro before done tail _ l f h
    cases h
  case unbalanced =>
    rintro before o os done tail - _ _ ⟨⟩
    exact .inl List.mem_cons_self
  case gap =>
    intro before os done gap rest r _ ih l f h
    exact (ih l f h).imp_right .after
  case opening =>
    intro before os done rest r ih l f h
    rcases ih l f h with hopen | hrest
    · rcases List.mem_cons.mp hopen with rfl | hopen
      · exact .inr (.first (by decide) rest)
      · exact .inl hopen
    · exact .inr hrest.after
  case stray =>
    rintro before done rest _ _ ⟨⟩
    exact .inr (.first (by decide) rest)
  case closing =>
    intro before o os done rest r ih l f h
    rw [lines_place] at ih
    exact (ih l f h).imp (List.mem_cons_of_mem _) .after
  case atom =>
    intro before os done t text rest r _ _ ih l f h
    rw [lines_place] at ih
    exact (ih l f h).imp_right .after
  case openSymbol =>
    rintro before os done text _ _ ⟨⟩
    exact .inr (.first (by decide) text)
  case openString =>
    rintro before os done text _ _ ⟨⟩
    exact .inr (.first (by decide) text)

/-- A refusal names a line on which there is something. -/
theorem occupied_of_readAll_error {cs : List Char} {l : Nat} {f : Fault}
    (h : readAll cs = .error (l, f)) : Occupied [] cs l := by
  have hline : l ∈ [].map Open.line ∨ Occupied [] cs l := line_of_assemble_error h
  exact hline.resolve_left List.not_mem_nil

/-- The line of an expression is the line on which its text begins. -/
theorem Stands.line_eq {before text : List Char} {e : SExpr} (h : Stands before e text) :
    e.line = lineAfter before := by
  cases h with
  | atom _ => rfl
  | list _ => rfl

/-- The text of an expression begins with something other than a line feed. -/
theorem Stands.exists_first {before text : List Char} {e : SExpr} (h : Stands before e text) :
    ∃ c rest, text = c :: rest ∧ c ≠ '\n' := by
  cases h with
  | atom hspelled => exact hspelled.exists_first
  | list _ => exact ⟨'(', _, rfl, by decide⟩

/-- An expression is written somewhere in a text that stands after `before`. -/
def Written (before cs : List Char) (e : SExpr) : Prop :=
  ∃ pre text post, cs = pre ++ text ++ post ∧ Stands (before ++ pre) e text

namespace Written

variable {before cs : List Char} {e : SExpr}

/-- An expression is written in its own text. -/
theorem whole (h : Stands before e cs) : Written before cs e :=
  ⟨[], cs, [], by simp, by rwa [List.append_nil]⟩

/-- An expression is written in every text around one in which it is. -/
theorem inside {skipped rest : List Char} (h : Written (before ++ skipped) cs e) :
    Written before (skipped ++ cs ++ rest) e := by
  obtain ⟨pre, text, post, rfl, hstands⟩ := h
  rw [List.append_assoc] at hstands
  exact ⟨skipped ++ pre, text, post ++ rest, by simp, hstands⟩

/-- The line of an expression that is written somewhere is occupied. -/
theorem occupied (h : Written before cs e) : Occupied before cs e.line := by
  obtain ⟨pre, text, post, rfl, hstands⟩ := h
  obtain ⟨c, rest, rfl, hc⟩ := hstands.exists_first
  exact ⟨pre, c, rest ++ post, by simp, hc, hstands.line_eq⟩

end Written

/-- Expressions, and all that is in them, are written in the text in which they stand. -/
theorem StandAll.written {before text : List Char} {es : List SExpr}
    (h : StandAll before es text) : ∀ u ∈ partsAll es, Written before text u := by
  refine @StandAll.rec (fun before e text _ => ∀ u ∈ e.parts, Written before text u)
    (fun before es text _ => ∀ u ∈ partsAll es, Written before text u) ?_ ?_ ?_ ?_ before es text h
  · intro before text t hspelled u hu
    rw [parts, List.mem_singleton] at hu
    subst hu
    exact .whole (.atom hspelled)
  · intro before text es hes ih u hu
    rw [parts, List.mem_cons] at hu
    rcases hu with rfl | hu
    · exact .whole (.list hes)
    · exact (ih u hu).inside
  · intro before gap _ u hu
    cases hu
  · intro before gap text rest e es _ _ _ _ ihe ihes u hu
    rw [partsAll, List.mem_append] at hu
    rcases hu with hu | hu
    · exact (ihe u hu).inside
    · rw [List.append_assoc before] at ihes
      rw [← List.append_nil (gap ++ text ++ rest)]
      exact (ihes u hu).inside

/-- **Each expression that is read, at any depth, is written in the text.** -/
theorem StandIn.written {es : List SExpr} {cs : List Char} (h : StandIn es cs) :
    ∀ u ∈ partsAll es, Written [] cs u := by
  obtain ⟨body, tail, rfl, hes, -⟩ := h
  intro u hu
  have hbody : Written ([] ++ []) body u := hes.written u hu
  exact hbody.inside

end SExpr

end Pathwise
