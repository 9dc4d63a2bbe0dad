import Pathwise.Proofs.Path.RoundTrip
import Pathwise.Proofs.Profile.Content
import Pathwise.Proofs.Term.Equality

/-!
# Which paths have the same content

Contents list names and constraints line by line, without escapes. Line breaks in a quoted name can
therefore look like lines of their own, and two different paths can have the same content.

* **Sources without quotes** (`Path.unbroken_of_parse`) have no names with line breaks.
* **Contents** (`Path.content_identifies`): without line breaks in names, the content of a path says
  all that it lists, and nothing else.
* **Quoted names** (`Path.content_of_different_paths`) can make the contents of two paths the same,
  one of which has an input and the other has an array.
-/

namespace Pathwise

open Text

/-- There are no line breaks in the canonical text of words. -/
theorem SExpr.Canonical.break_notMem_text {e : SExpr} (he : e.Canonical) :
    '\n' ∉ e.text.toList := by
  induction e using inductionOn with
  | atom l t =>
      intro hbreak
      have hinside := ((he _ (mem_parts_self _)).2 l t rfl).inside _ hbreak
      cases hinside
  | list l es ih =>
      have hitems : '\n' ∉ itemsText es := by
        intro h
        rcases mem_or_mem_of_mem_intercalate h with h | ⟨part, hpart, h⟩
        · simp at h
        · obtain ⟨e, hmem, rfl⟩ := List.mem_map.mp hpart
          exact ih e hmem (he.item hmem) h
      rw [toList_text_list]
      simp [hitems]

namespace Path

/-- A source without quotes gives a path without line breaks in names and constraints. -/
theorem unbroken_of_parse {src name : String} {p : Path} (h : parse src name = .ok p)
    (hquote : Token.quotes 1 .gap (bodyOf src) = false) : p.Unbroken := by
  obtain ⟨nodes, hread, hnames, hterms⟩ := traced_of_parse h
  constructor
  · intro v hv hbreak
    have hinside := (word_of_occurring hquote hread (hnames v hv)).inside _ hbreak
    cases hinside
  · intro c hc
    rw [Constraint.text, ← Term.text_node]
    refine (Term.canonical_node fun u hu n hn => ?_).break_notMem_text
    exact word_of_occurring hquote hread (occurring_of_rootName? (hterms c hc u hu) hn)

/-- The content depends on these parts of a path only. -/
theorem content_eq_of_lists {p q : Path} (hdeclared : p.declared = q.declared)
    (hdomains : p.domains = q.domains) (haccesses : p.accesses = q.accesses)
    (htransformations : p.transformations = q.transformations)
    (htexts : p.constraints.map (·.text) = q.constraints.map (·.text))
    (houtput : p.output = q.output) : p.content = q.content := by
  have hlines : p.constraints.map (fun c => "assert " ++ c.text) =
      q.constraints.map fun c => "assert " ++ c.text := by
    simpa [Function.comp_def] using congrArg (List.map ("assert " ++ ·)) htexts
  simp only [content, Profile.contentText, Profile.contentLines, hdeclared, hdomains, haccesses,
    htransformations, hlines, houtput]

/-- **The content identifies a path without line breaks.** If no name and no constraint of two paths
contains a line break, they have the same content exactly if they have the same symbols, domains,
accesses, transformations, texts of constraints, and output. By `unbroken_of_parse`, all paths that
are read from sources without quoted tokens are like that. -/
theorem content_identifies {p q : Path} (hp : p.Unbroken) (hq : q.Unbroken) :
    p.content = q.content ↔
      p.declared = q.declared ∧ p.domains = q.domains ∧ p.accesses = q.accesses ∧
        p.transformations = q.transformations ∧
        p.constraints.map (·.text) = q.constraints.map (·.text) ∧ p.output = q.output := by
  constructor
  · exact eq_of_content hp hq
  · rintro ⟨hdeclared, hdomains, haccesses, htransformations, htexts, houtput⟩
    exact content_eq_of_lists hdeclared hdomains haccesses htransformations htexts houtput

/-- Two sources that write a literal in different ways. -/
theorem content_identifies_literal :
    ∃ p q : Path, parse "(declare-const x (_ BitVec 1)) (assert (= x #b1))" "p" = .ok p ∧
      parse "(declare-const x (_ BitVec 1)) (assert (= x (_ bv1 1)))" "q" = .ok q ∧
      p.Unbroken ∧ q.Unbroken ∧ p.content = q.content ∧
      p.declared = q.declared ∧ p.domains = q.domains ∧ p.accesses = q.accesses ∧
      p.transformations = q.transformations ∧
      p.constraints.map (·.text) = q.constraints.map (·.text) ∧ p.output = q.output := by
  let x : Variable := ⟨"x", 1, .input⟩
  let fixed (name : String) : Path := ⟨-1, name, "", [x], [],
    [⟨0, .apply (.op .eq []) [.input x, .literal 1 1] 0⟩], .none⟩
  have hp : parse "(declare-const x (_ BitVec 1)) (assert (= x #b1))" "p" = .ok (fixed "p") :=
    parse_eq_ok (by decide +kernel)
  have hq : parse "(declare-const x (_ BitVec 1)) (assert (= x (_ bv1 1)))" "q" =
      .ok (fixed "q") := parse_eq_ok (by decide +kernel)
  have hpUnbroken : (fixed "p").Unbroken := unbroken_of_parse hp (by decide +kernel)
  have hqUnbroken : (fixed "q").Unbroken := unbroken_of_parse hq (by decide +kernel)
  have hcontent : (fixed "p").content = (fixed "q").content := by decide +kernel
  exact ⟨_, _, hp, hq, hpUnbroken, hqUnbroken, hcontent,
    (content_identifies hpUnbroken hqUnbroken).mp hcontent⟩

/-- An input whose name goes on like the next lines, and an array with a constraint that goes on
like them. The contents are the same, but the paths have neither the same symbols nor the same
domains nor the same constraints. -/
theorem content_of_different_paths :
    ∃ p q : Path,
      parse "(declare-const |m 1 2 1\nassert (f\nvar y| (_ BitVec 1)) (assert (g))" "p" = .ok p ∧
      parse "(declare-const m (Array (_ BitVec 1) (_ BitVec 1)))
(assert (|f\nvar y 1 0 0\ndom 1 [0, 1]\nassert (g|))" "q" = .ok q ∧
      p.content = q.content ∧ p.declared ≠ q.declared ∧ p.domains ≠ q.domains ∧
      p.constraints.map (·.text) ≠ q.constraints.map (·.text) := by
  have hp : parse "(declare-const |m 1 2 1\nassert (f\nvar y| (_ BitVec 1)) (assert (g))" "p" =
      .ok ⟨-1, "p", "", [⟨"m 1 2 1\nassert (f\nvar y", 1, .input⟩], [],
        [⟨0, .apply (.unknown "g" []) [] 0⟩], .none⟩ := parse_eq_ok (by decide +kernel)
  have hq : parse "(declare-const m (Array (_ BitVec 1) (_ BitVec 1)))
(assert (|f\nvar y 1 0 0\ndom 1 [0, 1]\nassert (g|))" "q" =
      .ok ⟨-1, "q", "", [⟨"m", 1, .array 1⟩], [],
        [⟨0, .apply (.unknown "f\nvar y 1 0 0\ndom 1 [0, 1]\nassert (g" []) [] 0⟩], .none⟩ :=
    parse_eq_ok (by decide +kernel)
  exact ⟨_, _, hp, hq, by decide +kernel, by decide +kernel, by decide +kernel, by decide +kernel⟩

end Path

end Pathwise
