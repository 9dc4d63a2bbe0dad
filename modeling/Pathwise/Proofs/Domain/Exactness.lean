import Pathwise.Profile.Basic
import Pathwise.Proofs.Domain.Limits
import Pathwise.Proofs.Path.WellFormed

/-!
# Inferred domains are exact

The bounds that inference recognises, described by the form of their terms alone, and that the
domain of an input is exactly the set of values of which they all evaluate to true.

* **Subjects** (`Bound.Subject`): an input, extracted whole, or extended by zeros or by its sign.
* **Recognised bounds** (`Bound.Recognised`): comparisons of a subject with a literal, on either
  side, under any number of negations. An unsigned order of a sign extension is not one of them.
* **Values** (`Recognised.says_iff`): what a recognised bound says of a value is what its term
  evaluates to. The width of the literal is that of the subject, so that both read alike.
* **Exactness** (`contains_ofBounds_iff`, `Path.contains_domain_iff`): the domain from some bounds
  contains a value exactly if they all say so.
-/

namespace Pathwise

namespace Term

/-- Whether a comparison of two terms compares equal widths, and a literal fits its width. -/
def isUniform : Term → Bool
  | apply (.op o _) [a, b] _ => !o.isCompare || a.width == b.width
  | literal n w => n < 2 ^ w
  | _ => true

/-- All comparisons of two terms compare equal widths, and all literals fit their widths. -/
def Uniform (t : Term) : Prop :=
  ∀ u ∈ t.parts, u.isUniform

/-- The arguments of a uniform term are uniform. -/
theorem Uniform.arg {h : Head} {args : List Term} {w : Nat} {t : Term}
    (hu : (apply h args w).Uniform) (ht : t ∈ args) : t.Uniform :=
  fun u hmem => hu u (mem_parts_apply ht hmem)

/-- Both sides of a uniform comparison have one width. -/
theorem Uniform.width_eq {o : Op} (ho : o.isCompare) {indices : List Nat} {a b : Term} {u : Nat}
    (hu : (apply (.op o indices) [a, b] u).Uniform) : a.width = b.width := by
  simpa [isUniform, ho] using hu _ (mem_parts_self _)

/-- A uniform literal fits its width. -/
theorem Uniform.literal_lt {n w : Nat} (hu : (literal n w).Uniform) : n < 2 ^ w := by
  simpa [isUniform] using hu _ (mem_parts_self _)

end Term

namespace Bound

open Value

/-- The terms that are an input, and how they widen it. -/
inductive Subject (v : Variable) : Widening → Term → Prop
  | input : Subject v .none (.input v)
  | extract {hi u : Nat} (h : hi + 1 = v.width) :
      Subject v .none (.apply (.op .extract [hi, 0]) [.input v] u)
  | zeroExtend (n u : Nat) :
      Subject v (if n = 0 then .none else .zero) (.apply (.op .zeroExtend [n]) [.input v] u)
  | signExtend (n u : Nat) :
      Subject v (if n = 0 then .none else .sign) (.apply (.op .signExtend [n]) [.input v] u)

/-- A comparison says something about an input widened in this way: all of them do, except that the
unsigned order of a sign extension is passed over. -/
def Informative (o : Op) (e : Widening) : Prop :=
  e = .sign → o.isSigned ∨ o = .eq ∨ o = .distinct

/-- The terms that are recognised as bounds on an input. -/
inductive Recognised (v : Variable) : Term → Prop
  | left {o : Op} {e : Widening} {t : Term} (ho : o.isCompare) (hi : Informative o e)
      (ht : Subject v e t) (indices : List Nat) (n w u : Nat) :
      Recognised v (.apply (.op o indices) [t, .literal n w] u)
  | right {o : Op} {e : Widening} {t : Term} (ho : o.isCompare) (hi : Informative o e)
      (ht : Subject v e t) (indices : List Nat) (n w u : Nat) :
      Recognised v (.apply (.op o indices) [.literal n w, t] u)
  | not {t : Term} (ht : Recognised v t) (indices : List Nat) (u : Nat) :
      Recognised v (.apply (.op .not indices) [t] u)

/-! ### Recognition -/

/-- The subjects that are found are the terms that are an input, widened or not. -/
theorem subject?_eq_some_iff {v : Variable} {e : Widening} {t : Term} :
    subject? t = some (v, e) ↔ Subject v e t := by
  constructor
  · intro h
    unfold subject? at h
    split at h
    · cases h
      exact .input
    · cases h
      exact .zeroExtend _ _
    · cases h
      exact .signExtend _ _
    · split at h
      · rename_i hwhole
        obtain ⟨rfl, hhi⟩ := hwhole
        cases h
        exact .extract hhi
      · cases h
    · cases h
  · rintro (_ | h | _ | _)
    · rfl
    · simp [subject?, h]
    · rfl
    · rfl

/-- A comparison is a direct bound just if its subject is on the left and a literal on the right. -/
theorem direct?_eq_some_iff {o : Op} {left right : Term} {b : Bound} :
    direct? o left right = some b ↔
      Subject b.var b.widening left ∧ right = .literal b.value b.width ∧ b.op = o := by
  unfold direct?
  constructor
  · intro h
    split at h
    · rename_i v e n w hs
      cases h
      exact ⟨subject?_eq_some_iff.mp hs, rfl, rfl⟩
    · cases h
  · rintro ⟨hs, rfl, rfl⟩
    rw [subject?_eq_some_iff.mpr hs]

/-- A literal is no subject. -/
theorem Subject.not_literal {v : Variable} {e : Widening} {n w : Nat} :
    ¬ Subject v e (.literal n w) := by
  rintro ⟨⟩

/-- A comparison is a bound just if a subject is on one side and a literal on the other. With the
subject on the right, it is turned around. -/
theorem compare?_eq_some_iff {o : Op} {left right : Term} {b : Bound} :
    compare? o left right = some b ↔
      (Subject b.var b.widening left ∧ right = .literal b.value b.width ∧ b.op = o) ∨
        (Subject b.var b.widening right ∧ left = .literal b.value b.width ∧ b.op = o.flip) := by
  unfold compare?
  rw [Option.or_eq_some_iff, direct?_eq_some_iff, direct?_eq_some_iff]
  constructor
  · rintro (h | ⟨-, h⟩)
    · exact .inl h
    · exact .inr h
  · rintro (h | h)
    · exact .inl h
    · refine .inr ⟨?_, h⟩
      -- a literal on the left is no subject, so the first reading fails
      rw [Option.eq_none_iff_forall_ne_some]
      intro b' hb'
      rw [direct?_eq_some_iff, h.2.1] at hb'
      exact Subject.not_literal hb'.1

/-! ### Values of subjects -/

/-- How a widened input with a given value reads: its number and its signed number, as far as the
widening leaves them simple. -/
def Reads (v : Variable) (x : Nat) {u : Nat} (y : BitVec u) : Widening → Prop
  | .none => (y.toNat : Int) = x ∧ y.toInt = signedValue x v.width
  | .zero => (y.toNat : Int) = x ∧ y.toInt = x
  | .sign => y.toInt = signedValue x v.width

variable {declared : List Variable} {memory : List Location} {env : Assignment} {v : Variable}
  {x : Nat}

/-- An input that is not widened reads as itself. -/
theorem reads_self (hv : 0 < v.width) (hx : x < 2 ^ v.width) {u : Nat} (hu : u = v.width) :
    Reads v x (BitVec.ofNat u x) .none := by
  subst hu
  refine ⟨?_, toInt_ofNat_eq_signedValue hv hx⟩
  rw [BitVec.toNat_ofNat, Nat.mod_eq_of_lt hx]

/-- Extended by at least one zero, a number has no sign. -/
theorem reads_zeroExtend (hx : x < 2 ^ v.width) {u : Nat} (hu : v.width < u) :
    Reads v x (BitVec.ofNat u x) .zero := by
  have hle : 2 ^ v.width ≤ 2 ^ (u - 1) := Nat.pow_le_pow_right (by omega) (by omega)
  have hlt : x < 2 ^ (u - 1) := Nat.lt_of_lt_of_le hx hle
  have hxu : x < 2 ^ u := Nat.lt_of_lt_of_le hx (Nat.pow_le_pow_right (by omega) (by omega))
  refine ⟨?_, ?_⟩
  · rw [BitVec.toNat_ofNat, Nat.mod_eq_of_lt hxu]
  · rw [toInt_ofNat_eq_signedValue (by omega) hxu, signedValue_of_lt hlt]

/-- A subject evaluates to the widened input. -/
theorem Subject.eval {e : Widening} {t : Term} {u : Nat} (ht : Subject v e t)
    (hwf : t.WellFormed declared memory) (hv : 0 < v.width)
    (hinput : Term.eval env (.input v) = .ok (.bits x v.width)) (hx : x < 2 ^ v.width)
    (hu : t.width = u) :
    ∃ y : BitVec u, t.eval env = .ok (ofBitVec y) ∧ Reads v x y e := by
  have hargs : Term.evalArgs env [.input v] = .ok [.bits x v.width] := by
    simp only [Term.evalArgs, hinput]
    rfl
  have hbits : Value.bits x v.width = ofBitVec (BitVec.ofNat v.width x) := by
    rw [← ofNat_eq_ofBitVec, Value.ofNat, Nat.mod_eq_of_lt hx]
  cases ht with
  | input =>
      obtain rfl : v.width = u := hu
      exact ⟨BitVec.ofNat v.width x, hinput.trans (congrArg Except.ok hbits), reads_self hv hx rfl⟩
  | @extract hi w h =>
      obtain rfl : w = u := hu
      obtain ⟨-, -, hw⟩ := hwf.fits
      have hwidth : w = v.width := by
        have := (Path.resultWidth_extract hw).2.2
        omega
      refine ⟨BitVec.ofNat w x, ?_, reads_self hv hx hwidth⟩
      rw [Term.eval_op env rfl _ _ hargs, ← ofNat_eq_ofBitVec]
      rfl
  | zeroExtend n w =>
      obtain rfl : w = u := hu
      obtain ⟨-, -, hw⟩ := hwf.fits
      have hwidth : w = v.width + n := Path.resultWidth_extend (.inl rfl) hw
      refine ⟨BitVec.ofNat w x, ?_, ?_⟩
      · rw [Term.eval_op env rfl _ _ hargs, ← ofNat_eq_ofBitVec]
        rfl
      · split
        · exact reads_self hv hx (by omega)
        · exact reads_zeroExtend hx (by omega)
  | signExtend n w =>
      obtain rfl : w = u := hu
      obtain ⟨-, -, hw⟩ := hwf.fits
      have hwidth : w = v.width + n := Path.resultWidth_extend (.inr rfl) hw
      refine ⟨(BitVec.ofNat v.width x).signExtend w, ?_, ?_⟩
      · rw [Term.eval_op env rfl _ _ hargs, hbits, hwidth]
        exact congrArg Except.ok (Term.structuralValues_signExtend _ n)
      · split
        · rename_i hn
          obtain rfl : w = v.width := by omega
          rw [BitVec.signExtend_eq]
          exact reads_self hv hx rfl
        · rw [Reads, BitVec.toInt_signExtend_of_le (by omega)]
          exact toInt_ofNat_eq_signedValue hv hx

/-! ### Values of bounds -/

/-- Both sides of a comparison of a subject with a literal of its width read as the bound says. -/
theorem Reads.says_iff {e : Widening} {o : Op} {n w : Nat} {y : BitVec w} (h : Reads v x y e)
    (hi : Informative o e) (hw : 0 < w) (hn : n < 2 ^ w) :
    Says ⟨v, e, o, n, w⟩ x ↔ o.Relates (o.reading y) (o.reading (BitVec.ofNat w n)) := by
  have hc : ((BitVec.ofNat w n).toNat : Int) = n := by
    rw [BitVec.toNat_ofNat, Nat.mod_eq_of_lt hn]
  have hs : (BitVec.ofNat w n).toInt = signedValue n w := toInt_ofNat_eq_signedValue hw hn
  cases e with
  | none =>
      obtain ⟨hy, hy'⟩ := h
      simp only [Says, Op.reading, hc, hs, hy, hy']
      split <;> rfl
  | zero =>
      obtain ⟨hy, hy'⟩ := h
      simp only [Says, Op.reading, hc, hs, hy, hy', ite_self]
  | sign =>
      have hy : y.toInt = signedValue x v.width := h
      simp only [Says, hi rfl, forall_const]
      rw [Op.relates_reading_iff (hi rfl), hy, hs]

/-- Negations do not change whether a comparison says something. -/
theorem informative_under_iff {o : Op} {e : Widening} (negated : Bool) :
    Informative (o.under negated) e ↔ Informative o e := by
  cases negated <;> cases o <;> simp [Informative, Op.under, Op.negate?, Op.isSigned]

/-- Turning a comparison around does not change whether it says something. -/
theorem informative_flip_iff {o : Op} {e : Widening} : Informative o.flip e ↔ Informative o e := by
  cases o <;> simp [Informative, Op.flip, Op.isSigned]

/-- The bound of a comparison under negations is that of what they make of it. -/
theorem ofTerm?_compare {o : Op} (ho : o.isCompare) (negated : Bool) (indices : List Nat)
    (a b : Term) (u : Nat) :
    ofTerm? negated (.apply (.op o indices) [a, b] u) = compare? (o.under negated) a b := by
  cases o <;> first | rfl | cases ho

/-- What a recognised bound says of a value of the input is what its term evaluates to, or under an
odd number of negations its opposite. -/
theorem Recognised.says_iff {t : Term} (ht : Recognised v t) (hwf : t.WellFormed declared memory)
    (hu : t.Uniform) (hv : 0 < v.width)
    (hinput : Term.eval env (.input v) = .ok (.bits x v.width)) (hx : x < 2 ^ v.width)
    (negated : Bool) :
    ∃ r b, t.eval env = .ok (.bool r) ∧ ofTerm? negated t = some b ∧ b.var = v ∧
      (b.Says x ↔ r ≠ negated) := by
  induction ht generalizing negated with
  | @left o e t ho hi ht indices n w u =>
      have hw : 0 < w := (hwf.arg (by simp) : (Term.literal n w).WellFormed _ _).fits.1
      have hn : n < 2 ^ w := (hu.arg (by simp) : (Term.literal n w).Uniform).literal_lt
      have hwidth : t.width = w := hu.width_eq ho
      obtain ⟨y, hy, hreads⟩ := ht.eval (hwf.arg (by simp)) hv hinput hx hwidth
      obtain ⟨r, hr, hrel⟩ := Term.eval_compare ho hy (Term.eval_literal n w) indices u
      refine ⟨r, ⟨v, e, o.under negated, n, w⟩, hr, ?_, rfl, ?_⟩
      · rw [ofTerm?_compare ho]
        exact compare?_eq_some_iff.mpr (.inl ⟨ht, rfl, rfl⟩)
      · rw [hreads.says_iff ((informative_under_iff negated).mpr hi) hw hn]
        simp only [Op.reading_under]
        exact Op.relates_under ho negated hrel
  | @right o e t ho hi ht indices n w u =>
      have hw : 0 < w := (hwf.arg (by simp) : (Term.literal n w).WellFormed _ _).fits.1
      have hn : n < 2 ^ w := (hu.arg (by simp) : (Term.literal n w).Uniform).literal_lt
      have hwidth : t.width = w := (hu.width_eq ho).symm
      obtain ⟨y, hy, hreads⟩ := ht.eval (hwf.arg (by simp)) hv hinput hx hwidth
      obtain ⟨r, hr, hrel⟩ := Term.eval_compare ho (Term.eval_literal n w) hy indices u
      refine ⟨r, ⟨v, e, (o.under negated).flip, n, w⟩, hr, ?_, rfl, ?_⟩
      · rw [ofTerm?_compare ho]
        exact compare?_eq_some_iff.mpr (.inr ⟨ht, rfl, rfl⟩)
      · rw [hreads.says_iff (informative_flip_iff.mpr ((informative_under_iff negated).mpr hi)) hw
          hn]
        simp only [Op.reading_flip, Op.reading_under, Op.relates_flip]
        exact Op.relates_under ho negated hrel
  | @not t ht indices u ih =>
      obtain ⟨r, b, hr, hb, hvar, hsound⟩ :=
        ih (hwf.arg (by simp)) (hu.arg (by simp)) (!negated)
      have hargs : Term.evalArgs env [t] = .ok [.bool r] := by
        simp only [Term.evalArgs, hr]
        rfl
      refine ⟨!r, b, Term.eval_op env rfl indices u hargs, hb, hvar, ?_⟩
      rw [hsound]
      cases r <;> cases negated <;> decide

/-- A bound that is passed over says nothing. -/
theorem says_of_not_informative {b : Bound} (h : ¬ Informative b.op b.widening) (y : Nat) :
    b.Says y := by
  obtain ⟨hsign, hop⟩ := Classical.not_imp.mp h
  simp only [Says, hsign, hop, false_imp_iff]

/-- Every bound that is found is recognised, or it says nothing. -/
theorem recognised_of_ofTerm? {t : Term} {negated : Bool} {b : Bound}
    (hwf : t.WellFormed declared memory) (h : ofTerm? negated t = some b) :
    Recognised b.var t ∨ ∀ y, b.Says y := by
  fun_induction ofTerm? negated t with
  | case1 negated indices t rest u ih =>
      obtain ⟨-, harity, -⟩ := hwf.fits
      obtain rfl : rest = [] := by
        simpa [Op.arity, Op.Arity.allows] using harity
      rcases ih (hwf.arg (by simp)) h with ht | hvoid
      · exact .inl (.not ht indices u)
      · exact .inr hvoid
  | case2 negated o indices a c u hnot ho =>
      have hb : compare? (o.under negated) a c = some b := h
      rcases compare?_eq_some_iff.mp hb with ⟨hs, rfl, hop⟩ | ⟨hs, rfl, hop⟩
      · by_cases hi : Informative o b.widening
        · exact .inl (.left ho hi hs _ _ _ _)
        · refine .inr (says_of_not_informative ?_)
          rwa [hop, informative_under_iff]
      · by_cases hi : Informative o b.widening
        · exact .inl (.right ho hi hs _ _ _ _)
        · refine .inr (says_of_not_informative ?_)
          rwa [hop, informative_flip_iff, informative_under_iff]
  | case3 => cases h
  | case4 => cases h

end Bound

/-! ### Domains -/

namespace Domain

/-- The limits under which a domain is inferred. -/
theorem exists_limits {v : Variable} (hv : 0 < v.width) (bounds : List Bound) :
    ∃ l : Limits, ofBounds v bounds = l.domain ∧ l.InRange ∧ l.width = v.width ∧
      ∀ x < 2 ^ v.width, l.Allows x ↔ ∀ b ∈ bounds, b.var = v → b.Says x := by
  have hvar : ∀ b ∈ bounds.filter (·.var == v), b.var = v := by
    intro b hb
    simpa using (List.mem_filter.mp hb).2
  obtain ⟨hrange, hwidth, hallows⟩ := Limits.foldl_add hvar (Limits.start_inRange hv) rfl
  refine ⟨_, rfl, hrange, hwidth, fun x hx => ?_⟩
  rw [hallows x hx]
  simp only [Limits.start_allows hv hx, true_and, List.mem_filter, beq_iff_eq, and_imp]

/-- The domain of an input contains the numbers that all its bounds allow. -/
theorem contains_ofBounds_iff {v : Variable} (hv : 0 < v.width) (bounds : List Bound)
    {x : Nat} (hx : x < 2 ^ v.width) :
    (ofBounds v bounds).contains x = true ↔ ∀ b ∈ bounds, b.var = v → b.Says x := by
  obtain ⟨l, hl, hrange, hwidth, hallows⟩ := exists_limits hv bounds
  rw [← hwidth] at hx
  rw [hl, Limits.contains_domain_iff hrange hx]
  exact hallows x (hwidth ▸ hx)

end Domain

namespace Path

open Pathwise.Bound

/-- The bounds that inference finds on a path. -/
def bounds (p : Path) : List Bound :=
  ((p.bucket .controlFlow).map (·.term)).filterMap (ofTerm? false)

/-- There is a domain for each input. -/
theorem domains_eq (p : Path) : p.domains = p.inputs.map (Domain.ofBounds · p.bounds) := rfl

/-- Bounds are read off the constraints of the control flow. -/
theorem mem_bounds {p : Path} {b : Bound} :
    b ∈ p.bounds ↔ ∃ c ∈ p.bucket .controlFlow, ofTerm? false c.term = some b := by
  simp [bounds]

/-- The domain of an input contains a value that the input has exactly if all recognised bounds
hold. -/
theorem contains_domain_iff {p : Path} (hp : p.WellFormed)
    (hu : ∀ c ∈ p.constraints, c.term.Uniform) {v : Variable} (hv : v ∈ p.inputs)
    {env : Assignment} {x : Nat} (hx : x < 2 ^ v.width)
    (hinput : Term.eval env (.input v) = .ok (.bits x v.width)) :
    (Domain.ofBounds v p.bounds).contains x = true ↔
      ∀ c ∈ p.bucket .controlFlow, Recognised v c.term → c.holds env = .ok true := by
  have hwidth : 0 < v.width := (hp.input_width hv).1
  have hmem {c : Constraint} (hc : c ∈ p.bucket .controlFlow) : c ∈ p.constraints :=
    (List.mem_filter.mp hc).1
  have hsound {c : Constraint} (hc : c ∈ p.bucket .controlFlow) (hr : Recognised v c.term) :=
    hr.says_iff (hp.terms c (hmem hc)) (hu c (hmem hc)) hwidth hinput hx false
  rw [Domain.contains_ofBounds_iff hwidth _ hx]
  constructor
  · intro h c hc hr
    obtain ⟨r, b, heval, hb, hvar, hiff⟩ := hsound hc hr
    have hr : r ≠ false := hiff.mp (h b (mem_bounds.mpr ⟨c, hc, hb⟩) hvar)
    rw [Constraint.holds_of_eval heval, Bool.ne_false_iff.mp hr]
  · rintro h b hmemb rfl
    obtain ⟨c, hc, hb⟩ := mem_bounds.mp hmemb
    rcases recognised_of_ofTerm? (hp.terms c (hmem hc)) hb with hr | hvoid
    · obtain ⟨r, b', heval, hb', -, hiff⟩ := hsound hc hr
      have hholds := h c hc hr
      rw [Constraint.holds_of_eval heval] at hholds
      cases hholds
      cases hb.symm.trans hb'
      exact hiff.mpr (by decide)
    · exact hvoid x

/-- Inferred domains are exact. On a path that compares equal widths and whose literals fit, the
domain of an input contains a value exactly if every recognised bound on the input holds when the
input has that value. So an assignment under which all constraints hold gives each input a value in
its domain. -/
theorem domains_exact {p : Path} (hp : p.Accepted) (hu : ∀ c ∈ p.constraints, c.term.Uniform)
    {i : Nat} {v : Variable} (hv : p.inputs[i]? = some v) :
    ∃ d, p.domains[i]? = some d ∧ d.width = v.width ∧
      (∀ x < 2 ^ v.width, ∀ env : Assignment, env v.name = some x →
        (d.contains x = true ↔
          ∀ c ∈ p.bucket .controlFlow, Recognised v c.term → c.holds env = .ok true)) ∧
      ∀ env : Assignment, Constraint.allHold env p.constraints = .ok true →
        ∀ n, env v.name = some n → d.contains (n % 2 ^ v.width) = true := by
  have hmem : v ∈ p.inputs := List.mem_of_getElem? hv
  have hpos : 0 < v.width := (hp.wellFormed.input_width hmem).1
  have hinput {env : Assignment} {n : Nat} (henv : env v.name = some n) :
      Term.eval env (.input v) = .ok (.bits (n % 2 ^ v.width) v.width) := by
    simp only [Term.eval, Term.symbolValue, henv, Value.ofNat]
  refine ⟨Domain.ofBounds v p.bounds, ?_, ?_, ?_, ?_⟩
  · rw [domains_eq, List.getElem?_map, hv]
    rfl
  · obtain ⟨l, hl, -, hwidth, -⟩ := Domain.exists_limits hpos p.bounds
    rw [hl]
    exact hwidth
  · intro x hx env henv
    refine contains_domain_iff hp.wellFormed hu hmem hx ?_
    rw [hinput henv, Nat.mod_eq_of_lt hx]
  · intro env hall n henv
    have hlt : n % 2 ^ v.width < 2 ^ v.width := Nat.mod_lt _ (Nat.two_pow_pos _)
    refine (contains_domain_iff hp.wellFormed hu hmem hlt (hinput henv)).mpr fun c hc _ => ?_
    exact Constraint.holds_of_allHold hall c (List.mem_filter.mp hc).1

/-- A signed bound through an extension and a denied unsigned one leave two intervals. -/
theorem domains_exact_two_intervals :
    let src := "(declare-const x (_ BitVec 8))
      (assert (not (bvult x #x10)))
      (assert (bvsgt #x0040 ((_ sign_extend 8) x)))"
    let x : Variable := ⟨"x", 8, .input⟩
    let d : Domain := ⟨8, [⟨16, 63⟩, ⟨128, 255⟩], []⟩
    ∃ p, parse src "p" = .ok p ∧ (∀ c ∈ p.constraints, c.term.Uniform) ∧
      p.inputs[0]? = some x ∧ p.domains[0]? = some d ∧
      ∀ n < 2 ^ x.width, ∀ env : Assignment, env x.name = some n →
        (d.contains n = true ↔
          ∀ c ∈ p.bucket .controlFlow, Recognised x c.term → c.holds env = .ok true) := by
  intro src x d
  have hfacts : (parse src "p").toOption.any (fun p =>
      p.constraints.all (fun c => c.term.parts.all (·.isUniform)) && p.inputs[0]? == some x &&
        p.domains[0]? == some d) = true := by
    decide +kernel
  obtain ⟨p, hp, hfacts⟩ := exists_of_parse hfacts
  simp only [Bool.and_eq_true, List.all_eq_true, beq_iff_eq] at hfacts
  obtain ⟨⟨hu, hx⟩, hd⟩ := hfacts
  obtain ⟨d', hd', -, hexact, -⟩ := domains_exact (.of_parse hp) hu hx
  cases hd.symm.trans hd'
  exact ⟨p, hp, hu, hx, hd, hexact⟩

end Path

end Pathwise
