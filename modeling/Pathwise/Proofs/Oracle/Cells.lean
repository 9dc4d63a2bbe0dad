import Mathlib.Data.Finset.Max
import Pathwise.Proofs.Term.Comparison
import Pathwise.Proofs.Term.Connectives

/-!
# Cells

Comparisons with literals cut the numbers of a width into *cells*: two numbers are in one cell if
they lie on the same side of the sign boundary and compare alike with every literal. A comparison of
an input with one of the literals, signed or unsigned, cannot tell members of a cell apart.

* **Representatives** (`SameCell.exists_representative`): zero, the sign boundary, the literals and
  their successors meet every cell. The greatest of them up to a number is in the cell of the
  number.
* **Elementary terms** (`Term.Elementary`): boolean combinations of comparisons of an input with a
  literal of its width. Whether a term is one can be computed (`isElementary_iff`).
* **Invariance** (`Elementary.agreesOn`, `allHold_congr`): assignments that give each input a
  number of the same cell give elementary terms the same truth value.
-/

namespace Pathwise

/-- Two numbers of a width are on the same side of the sign boundary and compare alike with the
literals. -/
structure SameCell (width : Nat) (literals : List Nat) (x y : Nat) : Prop where
  sign : x < 2 ^ (width - 1) ↔ y < 2 ^ (width - 1)
  below : ∀ n ∈ literals, x < n % 2 ^ width ↔ y < n % 2 ^ width
  equal : ∀ n ∈ literals, x = n % 2 ^ width ↔ y = n % 2 ^ width

namespace SameCell

variable {w : Nat} {literals : List Nat} {x y : Nat}

/-- Any numbers among which are zero, the sign boundary, the literals and their successors meet
every cell. -/
theorem exists_representative {candidates : List Nat} (hx : x < 2 ^ w) (hzero : 0 ∈ candidates)
    (hsign : 2 ^ (w - 1) ∈ candidates) (hself : ∀ n ∈ literals, n % 2 ^ w ∈ candidates)
    (hnext : ∀ n ∈ literals, (n + 1) % 2 ^ w ∈ candidates) :
    ∃ r ∈ candidates, SameCell w literals x r := by
  -- the greatest candidate up to the number
  obtain ⟨r, hr, hmax⟩ := (candidates.toFinset.filter (· ≤ x)).exists_max_image id
    ⟨0, by simp [hzero]⟩
  simp only [Finset.mem_filter, List.mem_toFinset, id_eq, and_imp] at hr hmax
  obtain ⟨hr, hle⟩ := hr
  refine ⟨r, hr, ?_, fun n hn => ?_, fun n hn => ?_⟩
  · have := hmax _ hsign
    omega
  · have := hmax _ (hself n hn)
    omega
  · have hself := hmax _ (hself n hn)
    have hnext := hmax _ (hnext n hn)
    constructor
    · intro h
      omega
    · intro h
      by_contra hne
      -- a greater number leaves room for the successor, which would be a greater candidate
      have hsucc : (n + 1) % 2 ^ w = n % 2 ^ w + 1 := by
        have hlt : n % 2 ^ w + 1 < 2 ^ w := by omega
        rw [Nat.add_mod, Nat.mod_eq_of_lt (a := 1) (by omega), Nat.mod_eq_of_lt hlt]
      omega

/-- Comparisons with a literal do not tell members of a cell apart. -/
theorem relates_iff (h : SameCell w literals x y) (hw : 0 < w) (hx : x < 2 ^ w) (hy : y < 2 ^ w)
    {n : Nat} (hn : n ∈ literals) (o : Op) :
    (o.Relates (o.reading (BitVec.ofNat w x)) (o.reading (BitVec.ofNat w n)) ↔
        o.Relates (o.reading (BitVec.ofNat w y)) (o.reading (BitVec.ofNat w n))) ∧
      (o.Relates (o.reading (BitVec.ofNat w n)) (o.reading (BitVec.ofNat w x)) ↔
        o.Relates (o.reading (BitVec.ofNat w n)) (o.reading (BitVec.ofNat w y))) := by
  have hpow := two_pow_eq_half hw
  have hsign := h.sign
  have hbelow := h.below n hn
  have hequal := h.equal n hn
  have hlt : n % 2 ^ w < 2 ^ w := Nat.mod_lt _ (Nat.two_pow_pos w)
  simp only [Op.reading_ofNat o hw, Nat.mod_eq_of_lt hx, Nat.mod_eq_of_lt hy]
  generalize n % 2 ^ w = c at *
  by_cases ho : o.isSigned
  · simp only [if_pos ho]
    have hx' := signedValue_cases x w
    have hy' := signedValue_cases y w
    have hc' := signedValue_cases c w
    exact Op.relates_congr (by omega) (by omega) o
  · simp only [if_neg ho]
    exact Op.relates_congr (by omega) (by omega) o

end SameCell

namespace Term

/-- Boolean combinations of comparisons of an input with a literal of its width. -/
inductive Elementary : Term → Prop
  | truth (b : Bool) : Elementary (.truth b)
  | left {o : Op} (ho : o.isCompare) (v : Variable) (n : Nat) (indices : List Nat) (w : Nat) :
      Elementary (.apply (.op o indices) [.input v, .literal n v.width] w)
  | right {o : Op} (ho : o.isCompare) (v : Variable) (n : Nat) (indices : List Nat) (w : Nat) :
      Elementary (.apply (.op o indices) [.literal n v.width, .input v] w)
  | not {t : Term} (ht : Elementary t) (indices : List Nat) (w : Nat) :
      Elementary (.apply (.op .not indices) [t] w)
  | and {args : List Term} (hargs : ∀ t ∈ args, Elementary t) (indices : List Nat) (w : Nat) :
      Elementary (.apply (.op .and indices) args w)
  | or {args : List Term} (hargs : ∀ t ∈ args, Elementary t) (indices : List Nat) (w : Nat) :
      Elementary (.apply (.op .or indices) args w)
  | implies {t u : Term} (ht : Elementary t) (hu : Elementary u) (indices : List Nat) (w : Nat) :
      Elementary (.apply (.op .implies indices) [t, u] w)
  | ite {c t u : Term} (hc : Elementary c) (ht : Elementary t) (hu : Elementary u)
      (indices : List Nat) (w : Nat) : Elementary (.apply (.op .ite indices) [c, t, u] w)

/-- Whether an operator joins this many truth values. -/
def connects : Op → Nat → Bool
  | .not, n => n == 1
  | .and, _ => true
  | .or, _ => true
  | .implies, n => n == 2
  | .ite, n => n == 3
  | _, _ => false

/-- Whether arguments are an input and a literal of its width. -/
def isInputAndLiteral : List Term → Bool
  | [input v, literal _ w] => w == v.width
  | [literal _ w, input v] => w == v.width
  | _ => false

mutual

/-- Whether a term is elementary. -/
def isElementary : Term → Bool
  | truth _ => true
  | apply (.op o _) args _ =>
    (o.isCompare && isInputAndLiteral args) || (connects o args.length && areElementary args)
  | _ => false

/-- Whether all terms of a list are elementary. -/
def areElementary : List Term → Bool
  | [] => true
  | t :: ts => t.isElementary && areElementary ts

end

/-- Arguments are elementary if each of them is. -/
theorem areElementary_eq_all (ts : List Term) : areElementary ts = ts.all isElementary := by
  induction ts with
  | nil => rfl
  | cons t ts ih => rw [areElementary, List.all_cons, ih]

/-- A comparison of an input with a literal is elementary. -/
theorem elementary_of_compare {o : Op} (ho : o.isCompare) {args : List Term}
    (h : isInputAndLiteral args = true) (indices : List Nat) (w : Nat) :
    Elementary (.apply (.op o indices) args w) := by
  unfold isInputAndLiteral at h
  split at h
  · rename_i v n u
    obtain rfl := beq_iff_eq.mp h
    exact .left ho v n indices w
  · rename_i n u v
    obtain rfl := beq_iff_eq.mp h
    exact .right ho v n indices w
  · cases h

/-- A boolean combination of elementary terms is elementary. -/
theorem elementary_of_connects {o : Op} {args : List Term} (ho : connects o args.length = true)
    (h : ∀ t ∈ args, t.Elementary) (indices : List Nat) (w : Nat) :
    Elementary (.apply (.op o indices) args w) := by
  unfold connects at ho
  split at ho
  · obtain ⟨t, rfl⟩ := List.length_eq_one_iff.mp (beq_iff_eq.mp ho)
    exact .not (h t (by simp)) indices w
  · exact .and h indices w
  · exact .or h indices w
  · obtain ⟨t, u, rfl⟩ := List.length_eq_two.mp (beq_iff_eq.mp ho)
    exact .implies (h t (by simp)) (h u (by simp)) indices w
  · obtain ⟨c, t, u, rfl⟩ := List.length_eq_three.mp (beq_iff_eq.mp ho)
    exact .ite (h c (by simp)) (h t (by simp)) (h u (by simp)) indices w
  · cases ho

/-- What is found elementary is elementary. -/
theorem elementary_of_isElementary (t : Term) : t.isElementary = true → t.Elementary := by
  apply isElementary.induct (fun t => t.isElementary = true → t.Elementary)
    (fun ts => areElementary ts = true → ∀ t ∈ ts, t.Elementary)
  case case1 =>
    intro b _
    exact .truth b
  case case2 =>
    intro o indices args w ih h
    simp only [isElementary, Bool.or_eq_true, Bool.and_eq_true] at h
    rcases h with ⟨ho, hargs⟩ | ⟨ho, hargs⟩
    · exact elementary_of_compare ho hargs indices w
    · exact elementary_of_connects ho (ih hargs) indices w
  case case3 =>
    intro t hne hne' h
    simp [isElementary] at h
  case case4 => simp
  case case5 =>
    intro t ts iht ihts h
    rw [areElementary, Bool.and_eq_true] at h
    exact List.forall_mem_cons.mpr ⟨iht h.1, ihts h.2⟩

/-- Whether a term is elementary can be computed. -/
theorem isElementary_iff {t : Term} : t.isElementary = true ↔ t.Elementary := by
  refine ⟨elementary_of_isElementary t, fun h => ?_⟩
  induction h with
  | truth b => rfl
  | left ho v n indices w => simp [isElementary, ho, isInputAndLiteral]
  | right ho v n indices w => simp [isElementary, ho, isInputAndLiteral]
  | not ht indices w ih => simp [isElementary, areElementary_eq_all, connects, ih]
  | and hargs indices w ih => simpa [isElementary, areElementary_eq_all, connects] using .inr ih
  | or hargs indices w ih => simpa [isElementary, areElementary_eq_all, connects] using .inr ih
  | implies ht hu indices w iht ihu =>
      simp [isElementary, areElementary_eq_all, connects, iht, ihu]
  | ite hc ht hu indices w ihc iht ihu =>
      simp [isElementary, areElementary_eq_all, connects, ihc, iht, ihu]

instance (t : Term) : Decidable t.Elementary :=
  decidable_of_iff _ isElementary_iff

/-- A term has the same truth value under two assignments. -/
def AgreesOn (env env' : Assignment) (t : Term) : Prop :=
  ∃ b, t.eval env = .ok (.bool b) ∧ t.eval env' = .ok (.bool b)

variable {env env' : Assignment}

/-- Where assignments agree on all arguments, the same argument decides. -/
theorem evalUntil_congr {args : List Term} (h : ∀ t ∈ args, AgreesOn env env' t) (stop : Bool) :
    ∃ b, evalUntil env stop args = .ok (.bool b) ∧ evalUntil env' stop args = .ok (.bool b) := by
  induction args with
  | nil => exact ⟨!stop, rfl, rfl⟩
  | cons t args ih =>
      obtain ⟨b, hb, hb'⟩ := h t List.mem_cons_self
      rw [evalUntil_cons hb, evalUntil_cons hb']
      split
      · exact ⟨stop, rfl, rfl⟩
      · exact ih fun u hu => h u (List.mem_cons_of_mem _ hu)

/-- Two assignments give an input numbers of one cell. -/
def SimilarAt (literals : Nat → List Nat) (env env' : Assignment) (v : Variable) : Prop :=
  ∃ n m, env v.name = some n ∧ env' v.name = some m ∧
    SameCell v.width (literals v.width) (n % 2 ^ v.width) (m % 2 ^ v.width)

variable {literals : Nat → List Nat}

/-- Numbers of one cell decide a comparison with a literal alike, on whichever side it stands. -/
theorem agreesOn_compare {o : Op} (ho : o.isCompare) {v : Variable} (hv : 0 < v.width)
    (hsim : SimilarAt literals env env' v) {n : Nat} (hn : n ∈ literals v.width)
    (indices : List Nat) (w : Nat) :
    AgreesOn env env' (.apply (.op o indices) [.input v, .literal n v.width] w) ∧
      AgreesOn env env' (.apply (.op o indices) [.literal n v.width, .input v] w) := by
  obtain ⟨x, y, hx, hy, hcell⟩ := hsim
  have hlt (k : Nat) : k % 2 ^ v.width < 2 ^ v.width := Nat.mod_lt _ (Nat.two_pow_pos _)
  have hrel := hcell.relates_iff hv (hlt x) (hlt y) hn o
  simp only [Op.reading_ofNat o hv, Nat.mod_mod] at hrel
  simp only [← Op.reading_ofNat o hv] at hrel
  constructor
  · obtain ⟨b, hb, hbrel⟩ := eval_compare ho (eval_input hx) (eval_literal n v.width) indices w
    obtain ⟨c, hc, hcrel⟩ := eval_compare ho (eval_input hy) (eval_literal n v.width) indices w
    obtain rfl : b = c := Bool.eq_iff_iff.mpr (hbrel.trans (hrel.1.trans hcrel.symm))
    exact ⟨b, hb, hc⟩
  · obtain ⟨b, hb, hbrel⟩ := eval_compare ho (eval_literal n v.width) (eval_input hx) indices w
    obtain ⟨c, hc, hcrel⟩ := eval_compare ho (eval_literal n v.width) (eval_input hy) indices w
    obtain rfl : b = c := Bool.eq_iff_iff.mpr (hbrel.trans (hrel.2.trans hcrel.symm))
    exact ⟨b, hb, hc⟩

/-- Two assignments give all inputs of a term numbers of the same cells, as far as the literals of
the term matter. -/
structure Similar (literals : Nat → List Nat) (env env' : Assignment) (t : Term) : Prop where
  pos : ∀ v, .input v ∈ t.parts → 0 < v.width
  inputs : ∀ v, .input v ∈ t.parts → SimilarAt literals env env' v
  literals : ∀ n w, .literal n w ∈ t.parts → n ∈ literals w

/-- Assignments that are similar for a term are similar for its arguments. -/
theorem Similar.arg {h : Head} {args : List Term} {w : Nat} {t : Term}
    (hsim : (apply h args w).Similar literals env env') (ht : t ∈ args) :
    t.Similar literals env env' where
  pos v hv := hsim.pos v (mem_parts_apply ht hv)
  inputs v hv := hsim.inputs v (mem_parts_apply ht hv)
  literals n w hn := hsim.literals n w (mem_parts_apply ht hn)

/-- An elementary term has the same truth value under similar assignments. -/
theorem Elementary.agreesOn {t : Term} (ht : t.Elementary) (hsim : t.Similar literals env env') :
    AgreesOn env env' t := by
  induction ht with
  | truth b => exact ⟨b, rfl, rfl⟩
  | left ho v n indices w =>
      have hv := mem_parts_self (.input v)
      have hn := mem_parts_self (.literal n v.width)
      have hl := hsim.arg (t := .input v) (by simp)
      have hr := hsim.arg (t := .literal n v.width) (by simp)
      exact (agreesOn_compare ho (hl.pos v hv) (hl.inputs v hv) (hr.literals n _ hn) indices w).1
  | right ho v n indices w =>
      have hv := mem_parts_self (.input v)
      have hn := mem_parts_self (.literal n v.width)
      have hl := hsim.arg (t := .literal n v.width) (by simp)
      have hr := hsim.arg (t := .input v) (by simp)
      exact (agreesOn_compare ho (hr.pos v hv) (hr.inputs v hv) (hl.literals n _ hn) indices w).2
  | @not t ht indices w ih =>
      obtain ⟨b, hb, hb'⟩ := ih (hsim.arg (by simp))
      refine ⟨!b, ?_, ?_⟩
      · simp only [eval, evalArgs, hb]
        rfl
      · simp only [eval, evalArgs, hb']
        rfl
  | @and args hargs indices w ih =>
      simp only [AgreesOn, eval, evalAll_eq_evalUntil]
      exact evalUntil_congr (fun t ht => ih t ht (hsim.arg ht)) false
  | @or args hargs indices w ih =>
      simp only [AgreesOn, eval, evalAny_eq_evalUntil]
      exact evalUntil_congr (fun t ht => ih t ht (hsim.arg ht)) true
  | @implies t u ht hu indices w iht ihu =>
      obtain ⟨b, hb, hb'⟩ := iht (hsim.arg (by simp))
      obtain ⟨c, hc, hc'⟩ := ihu (hsim.arg (by simp))
      simp only [AgreesOn, eval, hb, hb']
      cases b with
      | false => exact ⟨true, rfl, rfl⟩
      | true => exact ⟨c, hc, hc'⟩
  | @ite s t u hs ht hu indices w ihs iht ihu =>
      obtain ⟨b, hb, hb'⟩ := ihs (hsim.arg (by simp))
      obtain ⟨c, hc, hc'⟩ := iht (hsim.arg (by simp))
      obtain ⟨d, hd, hd'⟩ := ihu (hsim.arg (by simp))
      simp only [AgreesOn, eval, hb, hb']
      cases b with
      | false => exact ⟨d, hd, hd'⟩
      | true => exact ⟨c, hc, hc'⟩

end Term

/-- Constraints with the same truth values under two assignments hold together under both or under
neither. -/
theorem Constraint.allHold_congr {env env' : Assignment} {cs : List Constraint}
    (h : ∀ c ∈ cs, Term.AgreesOn env env' c.term) :
    ∃ b, allHold env cs = .ok b ∧ allHold env' cs = .ok b := by
  induction cs with
  | nil => exact ⟨true, rfl, rfl⟩
  | cons c cs ih =>
      obtain ⟨b, hb, hb'⟩ := h c List.mem_cons_self
      obtain ⟨r, hr, hr'⟩ := ih fun d hd => h d (List.mem_cons_of_mem _ hd)
      simp only [allHold, holds, hb, hb']
      cases b with
      | false => exact ⟨false, rfl, rfl⟩
      | true => exact ⟨r, hr, hr'⟩

end Pathwise
