import Pathwise.Proofs.Path.Provenance
import Pathwise.Proofs.SExpr.Layout

/-!
# On which lines a path file is refused

A refusal names a line of the file as its author sees it, although what is read is not the file: its
comments and its output are emptied first, and expressions may be spread over lines.

* **Lines are kept** (`Path.forall₂_splitSource`): the text that is read has a line for each line of
  the file, which is that line or empty.
* **Refusals** (`Path.RefusesOn`): building refuses a file on the line of an expression that it was
  reading, whatever step refuses it.
* **Lines of the file** (`Path.lines_of_source`): expressions have the lines on which they stand, so
  a refusal names a line that the file has.
-/

namespace Pathwise.Path

open SExpr (partsAll)

/-! ### Lines -/

/-- What can become of a line before it is read: it is emptied, or loses the carriage returns at its
end. -/
def KeepsLine (line raw : List Char) : Prop :=
  line = [] ∨ ∃ k, raw = line ++ List.replicate k '\r' ∧ line.getLast? ≠ some '\r'

/-- Carriage returns at the end of a line may go. -/
theorem keepsLine_dropEndWhile (raw : List Char) :
    KeepsLine (Text.dropEndWhile (· == '\r') raw) raw := by
  obtain ⟨dropped, heq, hall⟩ := Text.exists_eq_dropEndWhile_append (· == '\r') raw
  have hdropped : dropped = List.replicate dropped.length '\r' :=
    List.eq_replicate_of_mem fun c hc => by simpa using hall c hc
  refine .inr ⟨dropped.length, ?_, ?_⟩
  · rw [← hdropped]
    exact heq
  · intro hlast
    have hnext := Text.notNext_reverse_dropEndWhile (· == '\r') raw '\r'
    rw [List.head?_reverse] at hnext
    exact absurd (hnext hlast) (by decide)

/-- Reading a line for metadata leaves the line, or an empty one in its place. -/
theorem Metadata.keepsLine_line (m : Metadata) (raw : List Char) :
    KeepsLine (m.line raw).2 raw := by
  unfold Metadata.line
  simp only
  split
  · exact .inl rfl
  · split
    · exact .inl rfl
    · exact keepsLine_dropEndWhile raw

/-- Reading lines for metadata leaves as many lines. -/
theorem Metadata.forall₂_lines (m : Metadata) (ls : List (List Char)) :
    List.Forall₂ KeepsLine (m.lines ls).2 ls := by
  induction ls generalizing m with
  | nil => exact .nil
  | cons l ls ih => exact .cons (m.keepsLine_line l) (ih (m.line l).1)

/-- The body has a line for each line of the source. -/
theorem forall₂_splitSource (src : List Char) :
    List.Forall₂ KeepsLine (splitSource src).2 (Text.lines src) :=
  Metadata.empty.forall₂_lines (Text.lines src)

/-- A line without line feeds is kept without line feeds. -/
theorem KeepsLine.not_mem {line raw : List Char} (h : KeepsLine line raw) (hraw : '\n' ∉ raw) :
    '\n' ∉ line := by
  rcases h with rfl | ⟨k, rfl, -⟩
  · exact List.not_mem_nil
  · exact fun hmem => hraw (List.mem_append_left _ hmem)

/-- The lines of a body have no line feeds in them. -/
theorem not_mem_of_forall₂ {body source : List (List Char)} (h : List.Forall₂ KeepsLine body source)
    (hsource : ∀ raw ∈ source, '\n' ∉ raw) : ∀ line ∈ body, '\n' ∉ line := by
  induction h with
  | nil => exact List.forall_mem_nil _
  | cons hline _ ih =>
      obtain ⟨hraw, hsource⟩ := List.forall_mem_cons.mp hsource
      exact List.forall_mem_cons.mpr ⟨hline.not_mem hraw, ih hsource⟩

/-- Taken as a text and split again, a body has the lines it had, and an empty one. -/
theorem lines_bodyText {body : List (List Char)} (hbody : ∀ l ∈ body, '\n' ∉ l) :
    Text.lines (bodyText body) = body ++ [[]] := by
  induction body with
  | nil => rfl
  | cons l body ih =>
      obtain ⟨hl, hbody⟩ := List.forall_mem_cons.mp hbody
      have htext : bodyText (l :: body) = l ++ '\n' :: bodyText body := by simp [bodyText]
      rw [htext, Text.lines_append_cons hl, ih hbody, List.cons_append]

/-- The text of a body has a line feed for each line. -/
theorem count_bodyText {body : List (List Char)} (hbody : ∀ l ∈ body, '\n' ∉ l) :
    (bodyText body).count '\n' = body.length := by
  have hlength := Text.length_lines (bodyText body)
  rw [lines_bodyText hbody, List.length_append] at hlength
  exact (Nat.succ.inj hlength).symm

/-- A line with something on it is not the one after the last line feed. -/
theorem le_of_occupied {body : List (List Char)} (hbody : ∀ l ∈ body, '\n' ∉ l) {l : Nat}
    (h : SExpr.Occupied [] (bodyText body) l) : 1 ≤ l ∧ l ≤ body.length := by
  obtain ⟨pre, c, post, htext, hc, rfl⟩ := h
  have hcount := count_bodyText hbody
  rcases List.eq_nil_or_concat' body with rfl | ⟨init, last, rfl⟩
  · exact absurd htext (by simp [bodyText])
  have hlast : bodyText (init ++ [last]) = bodyText init ++ last ++ ['\n'] := by simp [bodyText]
  -- the text ends with a line feed, so one comes after what stands on the line
  have hpost : '\n' ∈ post := by
    rw [hlast] at htext
    rcases List.eq_nil_or_concat' post with rfl | ⟨post, d, rfl⟩
    · exact absurd (List.append_inj_right' htext rfl) (by simpa using hc.symm)
    · rw [← List.cons_append, ← List.append_assoc] at htext
      rw [← List.append_inj_right' htext rfl]
      simp
  have hpos := List.count_pos_iff.mpr hpost
  rw [htext, List.count_append, List.count_cons_of_ne hc] at hcount
  rw [List.nil_append, SExpr.lineAfter]
  omega

/-! ### Refusals -/

/-- A step that is refused on no lines but some. -/
def RefusesOn {α : Type} (P : Nat → Prop) (m : Build α) : Prop :=
  ∀ b line cause, m.run b = .error (line, cause) → P line

namespace RefusesOn

variable {α β : Type} {P : Nat → Prop} {line : Nat}

/-- A step that only returns refuses nothing. -/
theorem pure (a : α) : RefusesOn P (pure a) := by
  intro b line cause h
  cases h

/-- Reading the builder refuses nothing. -/
theorem get : RefusesOn P (get : Build Builder) := by
  intro b line cause h
  cases h

/-- Replacing the builder refuses nothing. -/
theorem set (b : Builder) : RefusesOn P (set b : Build PUnit) := by
  intro before line cause h
  cases h

/-- Changing the builder refuses nothing. -/
theorem modify (f : Builder → Builder) : RefusesOn P (modify f : Build PUnit) := by
  intro b line cause h
  cases h

/-- A refusal names the line it is given. -/
theorem refuse (hline : P line) (cause : Cause) : RefusesOn P (refuse line cause : Build α) := by
  rintro b _ _ ⟨⟩
  exact hline

/-- Steps one after the other refuse where one of them does. -/
theorem bind {m : Build α} {f : α → Build β} (hm : RefusesOn P m) (hf : ∀ a, RefusesOn P (f a)) :
    RefusesOn P (m >>= f) := by
  intro b l cause h
  rw [StateT.run_bind] at h
  cases hfirst : m.run b with
  | error e =>
      rw [hfirst] at h
      cases h
      exact hm b l cause hfirst
  | ok first =>
      rw [hfirst] at h
      exact hf first.1 first.2 l cause h

/-- What fails for a cause is refused on the line it is given. -/
theorem located (hline : P line) (r : Except Cause α) : RefusesOn P (located line r) := by
  cases r with
  | ok a => exact .pure a
  | error c => exact .refuse hline c

/-- A step for each member of a list refuses where one of the steps does. -/
theorem forM {f : α → Build PUnit} (hf : ∀ a, RefusesOn P (f a)) (as : List α) :
    RefusesOn P (as.forM f) := by
  induction as with
  | nil => exact .pure _
  | cons a as ih => exact .bind (hf a) fun _ => ih

/-- An atom is refused on its own line. -/
theorem atomTerm (hline : P line) (scope : Scope) (text : String) :
    RefusesOn P (atomTerm scope line text) := by
  unfold Path.atomTerm
  split
  · exact .pure _
  split
  · exact .pure _
  split
  · split
    · exact .pure _
    · exact .refuse hline _
  · split
    · exact .pure _
    · exact .refuse hline _
  · split
    · exact .pure _
    · refine .bind .get fun b => ?_
      split
      · exact .pure _
      · exact .refuse hline _

/-- Touching an array refuses nothing. -/
theorem touch (array : Variable) (index : Term) (kind : AccessKind) :
    RefusesOn P (touch array index kind) := by
  unfold Path.touch
  refine .bind .get fun b => ?_
  simp only
  split
  · exact .pure _
  · exact .bind (.set _) fun _ => .pure _

/-- An access is refused on the line of its application. -/
theorem applyAccess (hline : P line) (kind : AccessKind) (args : List Term) :
    RefusesOn P (applyAccess line kind args) := by
  unfold Path.applyAccess
  split
  · split
    · exact .refuse hline _
    · exact .bind (.touch _ _ _) fun _ => .pure _
  · exact .refuse hline _

/-- An operator is refused on the line of its application. -/
theorem applyOp (hline : P line) (o : Op) (indices : List Nat) (args : List Term) :
    RefusesOn P (applyOp line o indices args) := by
  unfold Path.applyOp
  by_cases harity : o.arity.allows args.length = true
  · simp only [harity, Bool.not_true, Bool.false_eq_true, if_false]
    split
    · exact .applyAccess hline _ _
    · exact .applyAccess hline _ _
    · split
      · exact .pure _
      · exact .refuse hline _
  · simp only [harity, Bool.not_false, if_true]
    exact .refuse hline _

/-- A sort is refused on its own line. -/
theorem sortWidth {sort : SExpr} (hline : P sort.line) : RefusesOn P (sortWidth sort) := by
  unfold Path.sortWidth
  split
  · split
    · split
      · exact .pure _
      · exact .refuse hline _
    · exact .refuse hline _
  · exact .refuse hline _

/-- Declaring a word refuses nothing: its width was checked before. -/
theorem declareWord (name : String) (width : Nat) : RefusesOn P (declareWord name width) := by
  unfold Path.declareWord
  refine .bind .get fun b => ?_
  split
  · exact .set _
  · exact .set _

/-- An assertion is refused on the line it is given. -/
theorem assert (hline : P line) (t : Term) : RefusesOn P (assert line t) := by
  have hadd (t : Term) : RefusesOn P (addConstraint t) := .modify _
  unfold Path.assert
  split
  · exact hadd _
  · split
    · exact .refuse hline _
    · exact .forM hadd _

variable {nodes : List SExpr} (hnodes : ∀ u ∈ partsAll nodes, P u.line)

include hnodes

/-- An expression is refused on the line of a subexpression. -/
theorem convert {e : SExpr} (he : e ∈ partsAll nodes) (scope : Scope) :
    RefusesOn P (convert scope e) := by
  refine convert.induct
    (fun scope e => e ∈ partsAll nodes → RefusesOn P (Path.convert scope e))
    (fun scope es => (∀ e ∈ es, e ∈ partsAll nodes) → RefusesOn P (define scope es))
    (fun scope es => (∀ e ∈ es, e ∈ partsAll nodes) → RefusesOn P (convertAll scope es))
    ?atom ?empty ?indexed ?literal ?binding ?malformed ?application ?noDefinition ?definition
    ?noBinding ?noArgument ?argument scope e he
  case atom =>
    intro scope line text he
    rw [Path.convert]
    exact .atomTerm (hnodes _ he) scope text
  case empty =>
    intro scope line he
    rw [Path.convert]
    exact .refuse (hnodes _ he) _
  case indexed =>
    intro scope line headLine headItems rest ih he
    have hrest : ∀ u ∈ rest, u ∈ partsAll nodes :=
      fun u hu => SExpr.mem_partsAll_item he (List.mem_cons_of_mem _ hu)
    rw [Path.convert]
    refine .bind (.located (hnodes _ he) _) fun head => .bind (ih hrest) fun args => ?_
    split
    · exact .applyOp (hnodes _ he) _ _ _
    · exact .pure _
  case literal =>
    intro scope line headLine rest he
    rw [convert.eq_def]
    exact .located (hnodes _ he) _
  case binding =>
    intro scope line headLine line' definitions body _ ihdef ihbody he
    have hlist : .list line' definitions ∈ partsAll nodes := SExpr.mem_partsAll_item he (by simp)
    rw [Path.convert, if_neg (by decide), if_pos rfl]
    refine .bind (ihdef fun u hu => SExpr.mem_partsAll_item hlist hu) fun inner => ?_
    exact ihbody inner (SExpr.mem_partsAll_item he (by simp))
  case malformed =>
    intro scope line headLine rest hrest _ he
    rw [Path.convert, if_neg (by decide), if_pos rfl]
    · exact .refuse (hnodes _ he) _
    · exact hrest
  case application =>
    intro scope line headLine head rest hmark hlet ih he
    have hrest : ∀ u ∈ rest, u ∈ partsAll nodes :=
      fun u hu => SExpr.mem_partsAll_item he (List.mem_cons_of_mem _ hu)
    rw [convert.eq_def]
    simp only [if_neg hmark, if_neg hlet]
    refine .bind (ih hrest) fun args => ?_
    split
    · exact .applyOp (hnodes _ he) _ _ _
    · exact .pure _
  case noDefinition =>
    intro scope _
    rw [define]
    exact .pure _
  case definition =>
    intro scope line line' name e definitions ih ihrest hes
    obtain ⟨hlist, hrest⟩ := List.forall_mem_cons.mp hes
    have he : e ∈ partsAll nodes := SExpr.mem_partsAll_item hlist (by simp)
    rw [define]
    exact .bind (ih he) fun t => .bind (ihrest hrest) fun later => .pure _
  case noBinding =>
    intro scope d tail hd hes
    rw [define]
    · exact .refuse (hnodes d (hes d List.mem_cons_self)) _
    · exact hd
  case noArgument =>
    intro scope _
    rw [convertAll]
    exact .pure _
  case argument =>
    intro scope e es ih ihrest hes
    obtain ⟨he, hrest⟩ := List.forall_mem_cons.mp hes
    rw [convertAll]
    exact .bind (ih he) fun t => .bind (ihrest hrest) fun ts => .pure _

/-- A declaration is refused on its line or on the line of its sort. -/
theorem declare (hline : P line) (name : SExpr) {sort : SExpr} (hsort : sort ∈ partsAll nodes) :
    RefusesOn P (declare line name sort) := by
  unfold Path.declare
  split
  · exact .refuse hline _
  · rename_i text
    refine .bind .get fun b => ?_
    by_cases hsymbol : (b.symbol? text).isSome = true
    · rw [if_pos hsymbol]
      exact .refuse hline _
    · rw [if_neg hsymbol]
      simp only
      split
      · rename_i index element
        have hindex : index ∈ partsAll nodes := SExpr.mem_partsAll_item hsort (by simp)
        have helement : element ∈ partsAll nodes := SExpr.mem_partsAll_item hsort (by simp)
        refine .bind (.sortWidth (hnodes _ hindex)) fun indexWidth => ?_
        exact .bind (.sortWidth (hnodes _ helement)) fun width => .modify _
      · exact .bind (.sortWidth (hnodes _ hsort)) fun _ => .declareWord _ _

/-- A command is refused on the line of an expression in it. -/
theorem command {node : SExpr} (hnode : node ∈ partsAll nodes) : RefusesOn P (command node) := by
  have hline := hnodes node hnode
  unfold Path.command
  split
  · exact .refuse hline _
  split
  · split
    · exact declare hnodes hline _ (SExpr.mem_partsAll_item hnode (by simp))
    · exact .refuse hline _
    · exact .refuse hline _
  split
  · split
    · exact declare hnodes hline _ (SExpr.mem_partsAll_item hnode (by simp))
    · exact .refuse hline _
  split
  · split
    · have he := SExpr.mem_partsAll_item hnode (List.mem_cons_of_mem _ List.mem_cons_self)
      exact .bind (convert hnodes he []) fun t => .assert hline t
    · exact .refuse hline _
  · split
    · exact .pure _
    · exact .refuse hline _

/-- Commands are refused on the lines of expressions in them. -/
theorem commands {es : List SExpr} (hes : ∀ e ∈ es, e ∈ partsAll nodes) :
    RefusesOn P (commands es) := by
  induction es with
  | nil =>
      rw [Path.commands]
      exact .pure _
  | cons e es ih =>
      obtain ⟨he, hes⟩ := List.forall_mem_cons.mp hes
      rw [Path.commands]
      exact .bind (command hnodes he) fun _ => ih hes

end RefusesOn

/-- A refusal names a line with something on it. -/
theorem occupied_of_build_error {body : List Char} {line : Nat} {cause : Cause}
    (h : build body = .error (line, cause)) : SExpr.Occupied [] body line := by
  unfold build at h
  cases hread : SExpr.readAll body with
  | error e =>
      rw [hread] at h
      cases h
      exact SExpr.occupied_of_readAll_error hread
  | ok nodes =>
      rw [hread] at h
      simp only at h
      have hnodes (u : SExpr) (hu : u ∈ partsAll nodes) : SExpr.Occupied [] body u.line :=
        ((SExpr.standIn_of_readAll hread).written u hu).occupied
      cases hrun : (commands nodes).run .empty with
      | error e =>
          rw [hrun] at h
          cases h
          exact RefusesOn.commands hnodes (fun e => SExpr.mem_partsAll_of_mem) _ _ _ hrun
      | ok r =>
          rw [hrun] at h
          cases h

/-- A source is refused because its body is, on the same line and for the same cause. -/
theorem exists_build_of_parse_error {src name : String} {r : Refusal}
    (h : parse src name = .error r) :
    ∃ line cause, build (bodyOf src) = .error (line, cause) ∧ r = ⟨name, line, cause⟩ := by
  unfold parse at h
  simp only at h
  cases hbuild : build (bodyOf src) with
  | error e =>
      rw [bodyOf] at hbuild
      rw [hbuild] at h
      cases h
      exact ⟨e.1, e.2, rfl, rfl⟩
  | ok b =>
      rw [bodyOf] at hbuild
      rw [hbuild] at h
      cases h

/-- **Lines are lines of the file.** The text that is read has a line for each line of the file,
which is empty or that line without the carriage returns at its end. All expressions that are read
from it, at any depth, have the lines on which they stand. So a refusal names a line of the file. -/
theorem lines_of_source (src name : String) :
    let source := Text.lines src.toList
    let body := (splitSource src.toList).2
    (['\n'].intercalate source = src.toList ∧ ∀ raw ∈ source, '\n' ∉ raw) ∧
      Text.lines (bodyText body) = body ++ [[]] ∧
      List.Forall₂
        (fun line raw =>
          line = [] ∨ ∃ k, raw = line ++ List.replicate k '\r' ∧ line.getLast? ≠ some '\r')
        body source ∧
      (∀ nodes, SExpr.readAll (bodyText body) = .ok nodes →
        SExpr.StandIn nodes (bodyText body) ∧
        ∀ u ∈ partsAll nodes, ∃ pre text post, bodyText body = pre ++ text ++ post ∧
          SExpr.Stands pre u text ∧ u.line = 1 + pre.count '\n') ∧
      ∀ r, parse src name = .error r →
        r.file = name ∧ 1 ≤ r.line ∧ r.line ≤ source.length := by
  intro source body
  have hlines : List.Forall₂ KeepsLine body source := forall₂_splitSource src.toList
  have hsource : ∀ raw ∈ source, '\n' ∉ raw := fun _ => Text.not_mem_of_mem_lines
  have hbody : ∀ l ∈ body, '\n' ∉ l := not_mem_of_forall₂ hlines hsource
  refine ⟨⟨Text.intercalate_lines _, hsource⟩, lines_bodyText hbody, hlines, ?_, ?_⟩
  · intro nodes hread
    have hstand := SExpr.standIn_of_readAll hread
    refine ⟨hstand, fun u hu => ?_⟩
    obtain ⟨pre, text, post, htext, hstands⟩ := hstand.written u hu
    rw [List.nil_append] at hstands
    refine ⟨pre, text, post, htext, hstands, ?_⟩
    rw [hstands.line_eq, SExpr.lineAfter, Nat.add_comm]
  · intro r hrefused
    obtain ⟨line, cause, hbuild, rfl⟩ := exists_build_of_parse_error hrefused
    obtain ⟨hfirst, hlast⟩ := le_of_occupied hbody (occupied_of_build_error hbuild)
    rw [hlines.length_eq] at hlast
    exact ⟨rfl, hfirst, hlast⟩

example : parse "; output: 1\r\n(check-sat)\n(assert\n x)\n" "p" matches
    .error ⟨"p", 4, .undeclared "x"⟩ := by decide +kernel

end Pathwise.Path
