import Pathwise.Proofs.SExpr.Reading
import Pathwise.Proofs.Term.Subterm
import Pathwise.Proofs.Text.Delimited
import Pathwise.Proofs.Text.Numeral

/-!
# How terms are written

The canonical text of a term is that of an expression, which can be read back. This file says which
expression that is.

* **Expressions** (`Term.node`, `Term.text_node`): the expression whose text is the text of a term.
  It is read back if all names in the term are words (`Term.canonical_node`).
* **Bare terms** (`Term.bare`): a term without its locations, which are not part of its text.
-/

namespace Pathwise

/-! ### Words -/

namespace Token

/-- Whether a text is a word can be computed. -/
theorem word_iff {s : String} : Word s ↔
    s.toList ≠ [] ∧ (s.toList.head? ≠ some '|' ∧ s.toList.head? ≠ some '"') ∧
      (s.toList.all fun c => !endsWord c) = true := by
  constructor
  · rintro ⟨hne, hhead, hinside⟩
    exact ⟨hne, hhead, by simpa using hinside⟩
  · rintro ⟨hne, hhead, hinside⟩
    exact ⟨hne, hhead, by simpa using hinside⟩

-- The characters are checked by `List.all`: a bounded `∀` could be decided over all of `Char`.
instance (s : String) : Decidable (Word s) :=
  decidable_of_iff' _ word_iff

/-- A digit ends no word. -/
theorem endsWord_of_isDigit {c : Char} (h : c.isDigit = true) : endsWord c = false := by
  have hne (d : Char) (hd : d.isDigit = false) : (c == d) = false := by
    refine beq_eq_false_iff_ne.mpr ?_
    rintro rfl
    simp [hd] at h
  simp [endsWord, isGap, hne]

/-- Digits after letters are a word. -/
theorem word_append_repr {s : String} (hs : Word s) (n : Nat) : Word (s ++ n.repr) := by
  refine hs.extend String.toList_append fun c hc => ?_
  exact endsWord_of_isDigit (Text.isDigit_of_mem_repr hc)

/-- A number is a word. -/
theorem word_repr (n : Nat) : Word n.repr := by
  obtain ⟨c, cs, hcs⟩ := List.exists_cons_of_ne_nil (Text.repr_ne_nil n)
  have hdigit : c.isDigit = true := Text.isDigit_of_mem_repr (n := n) (by simp [hcs])
  refine ⟨Text.repr_ne_nil n, ?_, fun d hd => endsWord_of_isDigit (Text.isDigit_of_mem_repr hd)⟩
  rw [hcs]
  constructor
  · rintro ⟨⟩
    cases hdigit
  · rintro ⟨⟩
    cases hdigit

/-- The name of an operator is a word. -/
theorem word_opName (o : Op) : Word o.name := by
  cases o <;> decide +kernel

end Token

/-! ### Expressions -/

namespace Term

/-- The expression for what an application applies. -/
def headNode (h : Head) : SExpr :=
  match h.indices with
  | [] => .atom 1 h.name
  | is => .list 1 (.atom 1 "_" :: .atom 1 h.name :: is.map fun i => .atom 1 i.repr)

mutual

/-- The expression that a term is written as. -/
def node : Term → SExpr
  | input v => .atom 1 v.name
  | cell v _ => .atom 1 v.name
  | array v => .atom 1 v.name
  | literal n w => .list 1 [.atom 1 "_", .atom 1 ("bv" ++ n.repr), .atom 1 w.repr]
  | truth b => .atom 1 (if b then "true" else "false")
  | apply h args _ => .list 1 (headNode h :: argNodes args)

/-- The expressions that arguments are written as. -/
def argNodes : List Term → List SExpr
  | [] => []
  | t :: ts => t.node :: argNodes ts

end

/-- Arguments are written one by one. -/
theorem argNodes_eq (ts : List Term) : argNodes ts = ts.map node := by
  induction ts with
  | nil => rfl
  | cons t ts ih => rw [argNodes, ih, List.map_cons]

/-- Items have a blank before each but the first. -/
theorem itemsText_cons (e : SExpr) (es : List SExpr) :
    SExpr.itemsText (e :: es) = e.text.toList ++ es.flatMap fun u => ' ' :: u.text.toList := by
  induction es generalizing e with
  | nil => simp [SExpr.itemsText]
  | cons u es ih =>
      have hsplit : SExpr.itemsText (e :: u :: es) =
          e.text.toList ++ ' ' :: SExpr.itemsText (u :: es) := by
        simp [SExpr.itemsText, List.intercalate_cons_cons]
      rw [hsplit, ih u, List.flatMap_cons, List.cons_append]

/-- The expression of a head has its text. -/
theorem text_headNode (h : Head) : (headNode h).text = headText h := by
  unfold headNode headText
  cases h.indices with
  | nil => rw [SExpr.text]
  | cons i is =>
      apply String.toList_inj.mp
      rw [SExpr.toList_text_list, itemsText_cons]
      simp [SExpr.text, String.toList_join, Nat.toString_eq_repr, List.flatMap, Function.comp_def]

/-- The texts of arguments have a blank before each. -/
theorem toList_argTexts (ts : List Term) :
    (argTexts ts).toList = ts.flatMap fun t => ' ' :: t.text.toList := by
  induction ts with
  | nil => rfl
  | cons t ts ih =>
      rw [argTexts, String.toList_append, String.toList_append, ih, List.flatMap_cons]
      rfl

/-- The text of a term is that of its expression. -/
theorem text_node (t : Term) : t.node.text = t.text := by
  induction t using inductionOn with
  | input v => rw [node, SExpr.text, text]
  | cell v l => rw [node, SExpr.text, text]
  | array v => rw [node, SExpr.text, text]
  | literal n w =>
      apply String.toList_inj.mp
      rw [node, SExpr.toList_text_list, itemsText_cons]
      simp [SExpr.text, text, literalText, Nat.toString_eq_repr]
  | truth b => rw [node, SExpr.text, text]
  | apply h args w ih =>
      have hargs : (args.map node).flatMap (fun u => ' ' :: u.text.toList) =
          args.flatMap fun t => ' ' :: t.text.toList := by
        rw [List.flatMap_map]
        refine List.flatMap_congr fun t ht => ?_
        rw [ih t ht]
      apply String.toList_inj.mp
      rw [node, SExpr.toList_text_list, itemsText_cons, argNodes_eq, hargs, text_headNode, text]
      simp [toList_argTexts]

/-- The names that the root of a term brings into its text. -/
def rootName? : Term → Option String
  | input v => some v.name
  | cell v _ => some v.name
  | array v => some v.name
  | apply (.unknown name _) _ _ => some name
  | _ => none

/-- Whether the root of a term, if it is a literal, has a value of its width. -/
def hasValue : Term → Bool
  | literal n w => n < 2 ^ w
  | _ => true

/-- The expression of a head is canonical if its name is a word. -/
theorem canonical_headNode {h : Head} (hname : Token.Word h.name) : (headNode h).Canonical := by
  have hindices : ∀ e ∈ h.indices.map (fun i => SExpr.atom 1 i.repr), e.Canonical := by
    intro e he
    obtain ⟨i, -, rfl⟩ := List.mem_map.mp he
    exact SExpr.canonical_atom (Token.word_repr i)
  unfold headNode
  split
  · exact SExpr.canonical_atom hname
  · refine SExpr.canonical_list (List.forall_mem_cons.mpr ⟨?_, List.forall_mem_cons.mpr ⟨?_, ?_⟩⟩)
    · exact SExpr.canonical_atom (by decide +kernel)
    · exact SExpr.canonical_atom hname
    · exact hindices

/-- If all names in a term are words, its expression is read back from its text. -/
theorem canonical_node {t : Term} (h : ∀ u ∈ t.parts, ∀ n, u.rootName? = some n → Token.Word n) :
    t.node.Canonical := by
  induction t using inductionOn with
  | input v => exact SExpr.canonical_atom (h _ (mem_parts_self _) _ rfl)
  | cell v l => exact SExpr.canonical_atom (h _ (mem_parts_self _) _ rfl)
  | array v => exact SExpr.canonical_atom (h _ (mem_parts_self _) _ rfl)
  | literal n w =>
      refine SExpr.canonical_list (List.forall_mem_cons.mpr ⟨?_, List.forall_mem_cons.mpr ⟨?_,
        List.forall_mem_singleton.mpr ?_⟩⟩)
      · exact SExpr.canonical_atom (by decide +kernel)
      · exact SExpr.canonical_atom (Token.word_append_repr (by decide +kernel) n)
      · exact SExpr.canonical_atom (Token.word_repr w)
  | truth b => exact SExpr.canonical_atom (by cases b <;> decide +kernel)
  | apply head args w ih =>
      obtain ⟨hroot, hargs⟩ := forall_parts_iff.mp h
      have hname : Token.Word head.name := by
        cases head with
        | op o is => exact Token.word_opName o
        | access k l => exact Token.word_opName k.op
        | unknown name is => exact hroot name rfl
      rw [node, argNodes_eq]
      refine SExpr.canonical_list (List.forall_mem_cons.mpr ⟨canonical_headNode hname, ?_⟩)
      intro e he
      obtain ⟨t, ht, rfl⟩ := List.mem_map.mp he
      exact ih t ht (hargs t ht)

/-! ### Bare terms -/

/-- What is applied, without the location that it touches. -/
def bareHead : Head → Head
  | .access k _ => .access k default
  | h => h

mutual

/-- A term without its locations. -/
def bare : Term → Term
  | cell v _ => cell v default
  | apply h args w => apply (bareHead h) (bareAll args) w
  | t => t

/-- Terms without their locations. -/
def bareAll : List Term → List Term
  | [] => []
  | t :: ts => t.bare :: bareAll ts

end

/-- Arguments are made bare one by one. -/
theorem bareAll_eq (ts : List Term) : bareAll ts = ts.map bare := by
  induction ts with
  | nil => rfl
  | cons t ts ih => rw [bareAll, ih, List.map_cons]

/-- A bare term has the width of the term. -/
theorem width_bare (t : Term) : t.bare.width = t.width := by
  cases t <;> rfl

/-- A bare term is of the same array. -/
theorem arrayOf?_bare (t : Term) : t.bare.arrayOf? = t.arrayOf? := by
  induction t using inductionOn with
  | apply h args w ih =>
      rw [bare, bareAll_eq]
      cases h with
      | op o is => rfl
      | unknown name is => rfl
      | access k l =>
          cases k with
          | read => rfl
          | write =>
              cases args with
              | nil => rfl
              | cons a as =>
                  rw [List.map_cons, bareHead, arrayOf?, arrayOf?]
                  exact ih a List.mem_cons_self
  | _ => rfl

/-- Locations are not in the text of a head. -/
theorem headText_bareHead (h : Head) : headText (bareHead h) = headText h := by
  cases h <;> rfl

/-- Locations are not part of the text of a term. -/
theorem text_bare (t : Term) : t.bare.text = t.text := by
  induction t using inductionOn with
  | apply h args w ih =>
      have hargs : argTexts (args.map bare) = argTexts args := by
        apply String.toList_inj.mp
        rw [toList_argTexts, toList_argTexts, List.flatMap_map]
        exact List.flatMap_congr fun t ht => by rw [ih t ht]
      rw [bare, bareAll_eq, text, text, hargs, headText_bareHead]
  | _ => rfl

end Term

end Pathwise
