import Pathwise.Profile.Basic
import Pathwise.Proofs.Path.Guarantees
import Pathwise.Proofs.Path.Provenance
import Pathwise.Term.Eval

/-!
# Literals and their widths

When the literals of a path fit their widths, so that the number that a literal has is the number
that it evaluates to.

* **Digits** (`SExpr.Writes.natAbs_lt`): the digits of a literal never spell more than its width
  holds, whichever the notation.
* **Signs** (`SExpr.Writes.wrapped_lt_iff`): but a negative number is taken modulo the greatest
  width, and fits no other.
* **Paths** (`Path.literals_fit_iff`): so the literals of a path all fit unless one of them is
  written as a negative number in fewer bits than the greatest width has.
-/

namespace Pathwise

open Pathwise.Path (wrapped)

/-! ### Digits -/

/-- An integer is bounded by the number of its digits, a sign included. -/
theorem Text.SpellsInt.natAbs_lt {base : Nat} {cs : List Char} {i : Int}
    (h : Text.SpellsInt base cs i) (hbase : 1 < base) : i.natAbs < base ^ cs.length := by
  have hmore (c : Char) (ds : List Char) : base ^ ds.length ≤ base ^ (c :: ds).length :=
    Nat.pow_le_pow_right (by omega) (by simp)
  rcases h with ⟨n, hn, rfl⟩ | h
  · exact hn.lt hbase
  · cases h with
    | minus hn =>
        rw [Int.natAbs_neg, Int.natAbs_natCast]
        exact (hn.lt hbase).trans_le (hmore _ _)
    | plus hn => exact (hn.lt hbase).trans_le (hmore _ _)

/-- What is known as a literal is one. -/
theorem Term.eq_literal_of_literal? {t : Term} {n : Nat} (h : t.literal? = some n) :
    t = .literal n t.width := by
  cases t <;> simp_all [Term.literal?, Term.width]

namespace SExpr.Writes

variable {e : SExpr} {i : Int} {w : Nat}

/-- A written literal has the width of a bit-vector. -/
theorem width_le (h : e.Writes i w) : w ≤ maxWidth := by
  cases h <;> assumption

/-- The digits of a literal spell no more than its width holds. -/
theorem natAbs_lt (h : e.Writes i w) : i.natAbs < 2 ^ w := by
  cases h with
  | hexadecimal _ hi _ =>
      rw [mul_comm, pow_mul]
      exact hi.natAbs_lt (by decide)
  | binary _ hi _ =>
      rw [mul_one]
      exact hi.natAbs_lt (by decide)
  | indexed _ _ _ _ hnonneg hlt =>
      rw [← Int.natAbs_of_nonneg hnonneg] at hlt
      exact_mod_cast hlt

/-- A negative number fits the greatest width only. -/
theorem wrapped_lt_iff (h : e.Writes i w) : wrapped i < 2 ^ w ↔ 0 ≤ i ∨ w = maxWidth := by
  have hdigits : (i.natAbs : Int) < 2 ^ w := by exact_mod_cast h.natAbs_lt
  have hgreatest : (2 : Int) ^ maxWidth = 2 ^ 255 + 2 ^ 255 := by norm_num [maxWidth]
  have hpow {k : Nat} (hk : w ≤ k) : (2 : Int) ^ w ≤ 2 ^ k := pow_le_pow_right₀ (by decide) hk
  by_cases hi : 0 ≤ i
  · have hsame := Path.wrapped_of_nonneg hi (by omega) h.width_le
    refine iff_of_true ?_ (.inl hi)
    rw [hsame]
    exact_mod_cast (by omega : (i.toNat : Int) < 2 ^ w)
  · have hwraps : (wrapped i : Int) = i + 2 ^ maxWidth := by
      have hle := hpow h.width_le
      rw [wrapped, ← Int.add_emod_right, Int.emod_eq_of_lt (by omega) (by omega)]
      omega
    rw [or_iff_right hi]
    constructor
    · intro hlt
      have hlt : (wrapped i : Int) < 2 ^ w := by exact_mod_cast hlt
      by_contra hne
      have hle := hpow (k := 255) (by have := h.width_le; simp only [maxWidth] at *; omega)
      omega
    · rintro rfl
      exact_mod_cast (by omega : (wrapped i : Int) < 2 ^ maxWidth)

end SExpr.Writes

namespace Path

/-! ### Paths -/

/-- A source has an expression that writes a literal. -/
def WritesLiteral (src : String) (i : Int) (w : Nat) : Prop :=
  ∃ nodes, SExpr.readAll (bodyOf src) = .ok nodes ∧ ∃ e ∈ SExpr.partsAll nodes, e.Writes i w

/-- The number of a literal is below what its width holds, and it is what the literal evaluates
to. -/
structure LiteralFits (n w : Nat) : Prop where
  lt : n < 2 ^ w
  eval_eq : ∀ env, (Term.literal n w).eval env = .ok (.bits n w)

/-- Whether a literal fits its width can be computed. -/
theorem literalFits_iff {n w : Nat} : LiteralFits n w ↔ n < 2 ^ w := by
  refine ⟨fun h => h.lt, fun h => ⟨h, fun env => ?_⟩⟩
  rw [Term.eval, Value.ofNat, Nat.mod_eq_of_lt h]

/-- **The literals of a path are written in its source, and all fit unless one is written as a
negative number in fewer than the greatest number of bits.** -/
theorem literals_fit_iff {src name : String} {p : Path} (h : parse src name = .ok p) :
    (∀ n w, Occurs p.constraints (.literal n w) → ∃ i, WritesLiteral src i w ∧ n = wrapped i) ∧
      ((∀ n w, Occurs p.constraints (.literal n w) → LiteralFits n w) ↔
        ∀ i w, WritesLiteral src i w → Occurs p.constraints (.literal (wrapped i) w) →
          0 ≤ i ∨ w = maxWidth) := by
  have hwritten : ∀ n w, Occurs p.constraints (.literal n w) →
      ∃ i, WritesLiteral src i w ∧ n = wrapped i := by
    obtain ⟨nodes, hread, -, hterms⟩ := traced_of_parse h
    rintro n w ⟨c, hc, hpart⟩
    obtain ⟨e, he, i, hi, hn⟩ := hterms c hc _ hpart
    exact ⟨i, ⟨nodes, hread, e, he, hi⟩, hn⟩
  refine ⟨hwritten, ?_, ?_⟩
  · rintro hfits i w ⟨nodes, -, e, -, hi⟩ hoccurs
    exact hi.wrapped_lt_iff.mp (hfits _ w hoccurs).lt
  · intro hsigns n w hoccurs
    obtain ⟨i, hi, rfl⟩ := hwritten n w hoccurs
    obtain ⟨nodes, -, e, -, hwrites⟩ := id hi
    exact literalFits_iff.mpr (hwrites.wrapped_lt_iff.mpr (hsigns i w hi hoccurs))

/-- A literal in each notation, one with a sign that adds a digit. -/
theorem literals_fit_plus :
    let src := "(declare-const x (_ BitVec 8))
      (assert (and (= x #x+f) (bvule x (_ bv15 8)) (distinct x #b00001110)))"
    ∃ p, parse src "p" = .ok p ∧
      (∃ i, WritesLiteral src i 8 ∧ 15 = wrapped i) ∧
      (∀ n w, Occurs p.constraints (.literal n w) → LiteralFits n w) ∧
      ∀ i w, WritesLiteral src i w → Occurs p.constraints (.literal (wrapped i) w) →
        0 ≤ i ∨ w = maxWidth := by
  intro src
  have hfacts : (parse src "p").toOption.any (fun p =>
      p.constraints.any (fun c => c.term.parts.any fun t =>
        t.width == 8 && t.literal? == some 15) &&
        p.constraints.all fun c => c.term.parts.all fun t => t.literal?.all (· < 2 ^ t.width)) =
      true := by
    decide +kernel
  obtain ⟨p, hp, hfacts⟩ := exists_of_parse hfacts
  simp only [Bool.and_eq_true, List.any_eq_true, List.all_eq_true, beq_iff_eq] at hfacts
  obtain ⟨⟨c, hc, t, ht, hwidth, hvalue⟩, hall⟩ := hfacts
  have hfits : ∀ n w, Occurs p.constraints (.literal n w) → LiteralFits n w := by
    rintro n w ⟨c, hc, hpart⟩
    exact literalFits_iff.mpr (of_decide_eq_true (hall c hc _ hpart))
  have hoccurs : Occurs p.constraints (.literal 15 8) :=
    ⟨c, hc, hwidth ▸ Term.eq_literal_of_literal? hvalue ▸ ht⟩
  exact ⟨p, hp, (literals_fit_iff hp).1 15 8 hoccurs, hfits, (literals_fit_iff hp).2.mp hfits⟩

/-- A negative literal of eight bits has a number that does not fit. The domain inferred from it is
empty, although the path is taken where the input has the low bits of that number. -/
theorem negative_literal_not_fit :
    let src := "(declare-const x (_ BitVec 8)) (assert (= x #x-1))"
    ∃ p, parse src "p" = .ok p ∧ Occurs p.constraints (.literal (2 ^ 256 - 1) 8) ∧
      ¬ LiteralFits (2 ^ 256 - 1) 8 ∧
      (∀ env, (Term.literal (2 ^ 256 - 1) 8).eval env = .ok (.bits 255 8)) ∧
      p.domains = [⟨8, [], []⟩] ∧
      Constraint.allHold (fun _ => some 255) p.constraints = .ok true := by
  intro src
  have hfacts : (parse src "p").toOption.any (fun p =>
      p.constraints.any (fun c => c.term.parts.any fun t =>
        t.width == 8 && t.literal? == some (2 ^ 256 - 1)) &&
        (p.domains == [⟨8, [], []⟩] &&
          (Constraint.allHold (fun _ => some 255) p.constraints).toOption == some true)) =
      true := by
    decide +kernel
  obtain ⟨p, hp, hfacts⟩ := exists_of_parse hfacts
  simp only [Bool.and_eq_true, List.any_eq_true, beq_iff_eq] at hfacts
  obtain ⟨⟨c, hc, t, ht, hwidth, hvalue⟩, hdomains, hholds⟩ := hfacts
  have hoccurs : Occurs p.constraints (.literal (2 ^ 256 - 1) 8) :=
    ⟨c, hc, hwidth ▸ Term.eq_literal_of_literal? hvalue ▸ ht⟩
  refine ⟨p, hp, hoccurs, fun hfits => absurd hfits.lt (by decide), fun env => rfl, hdomains, ?_⟩
  cases hall : Constraint.allHold (fun _ => some 255) p.constraints with
  | error e =>
      rw [hall] at hholds
      cases hholds
  | ok holds =>
      rw [hall] at hholds
      cases hholds
      rfl

end Path

end Pathwise
