import Pathwise.Proofs.Path.WellFormed

/-!
# What can be relied on in a path

Evaluation, layers and domains go through the terms of a path without asking again what was asked
when they were built. This file says what they may take for granted, in the words of those who use
it.

* **Arrays** (`Term.StoreChain`): what is accessed is an array symbol below some stores.
* **Widths** (`Term.WellFormed.width_le`): no term is wider than `maxWidth`. Symbols, literals and
  extensions are checked, and all other terms are as wide as something that they are made of.
* **Guarantees** (`Path.Guarantees`): about symbols, locations, arguments, indices and widths of all
  terms, and about the list of constraints.

Everything that is read has them (`Path.reading_guarantees`). A file may hold bytes that are no
characters. Reading compares only characters of one byte, so it is the same to take each byte for a
character of its own; which lines of the file are left out as comments does not matter then, because
the guarantees hold for every text that commands are read from.
-/

namespace Pathwise

/-- An arity allows the numbers from its least on, up to its most if it has one. -/
theorem Op.Arity.allows_iff {a : Op.Arity} {n : Nat} :
    a.allows n = true ↔ a.least ≤ n ∧ ∀ m, a.most = some m → n ≤ m := by
  unfold Op.Arity.allows
  rw [Bool.and_eq_true, decide_eq_true_eq]
  cases a.most <;> simp

namespace Term

/-! ### Arrays -/

/-- A term that is an array symbol, or a store to such a term. -/
inductive StoreChain (v : Variable) : Term → Prop where
  | array : StoreChain v (.array v)
  | store {t : Term} (ht : StoreChain v t) (l : Location) (args : List Term) (w : Nat) :
    StoreChain v (.apply (.access .write l) (t :: args) w)

/-- What is known as an array is an array symbol below some stores. -/
theorem storeChain_of_arrayOf? {t : Term} {v : Variable} (h : t.arrayOf? = some v) :
    StoreChain v t := by
  fun_induction arrayOf? t with
  | case1 u =>
      cases h
      exact .array
  | case2 l t args w ih => exact .store (ih h) l args w
  | case3 t => cases h

/-- The array symbol occurs in the stores above it. -/
theorem StoreChain.array_mem_parts {t : Term} {v : Variable} (h : StoreChain v t) :
    .array v ∈ t.parts := by
  induction h with
  | array => exact mem_parts_self _
  | store ht l args w ih => exact mem_parts_apply List.mem_cons_self ih

/-! ### Widths -/

/-- The width of the first argument is within bounds if all are. -/
theorem firstWidth_le {args : List Term} (h : ∀ t ∈ args, t.width ≤ maxWidth) :
    Path.firstWidth args ≤ maxWidth := by
  cases args with
  | nil => exact Nat.zero_le _
  | cons t ts => exact h t List.mem_cons_self

/-- The width of an application is within bounds if those of its arguments are. -/
theorem resultWidth_le {o : Op} {is : List Nat} {args : List Term} {w : Nat}
    (hargs : ∀ t ∈ args, t.width ≤ maxWidth) (h : Path.resultWidth o is args = .ok w) :
    w ≤ maxWidth := by
  have hfirst := firstWidth_le hargs
  have hsecond : Path.firstWidth args.tail ≤ maxWidth :=
    firstWidth_le fun t ht => hargs t (List.mem_of_mem_tail ht)
  unfold Path.resultWidth at h
  split at h
  · cases h
    exact hsecond
  · -- an extraction is at most as wide as what it is made from
    split at h
    · split at h <;> cases h
      omega
    · cases h
  · split at h
    · split at h <;> cases h
      omega
    · cases h
  · split at h
    · split at h <;> cases h
      omega
    · cases h
  · simp only at h
    split at h <;> cases h
    omega
  · obtain rfl := Except.ok.inj h
    split
    · exact hfirst
    · exact Nat.zero_le _

/-- The width of an application is bounded if those of its arguments are. -/
theorem Fits.width_le {declared : List Variable} {memory : List Location} {head : Head}
    {args : List Term} {w : Nat} (hf : (apply head args w).Fits declared memory)
    (hargs : ∀ t ∈ args, t.width ≤ maxWidth)
    (harrays : ∀ t ∈ args, ∀ v, .array v ∈ t.parts → v.width ≤ maxWidth) : w ≤ maxWidth := by
  cases head with
  | op o is => exact resultWidth_le hargs hf.2.2
  | unknown name is =>
      have hw : w = Path.firstWidth args := hf
      rw [hw]
      exact firstWidth_le hargs
  | access k l =>
      obtain ⟨-, -, a, rest, v, rfl, hv, rfl⟩ := hf
      have hwidth := harrays a List.mem_cons_self v (storeChain_of_arrayOf? hv).array_mem_parts
      split
      · exact hwidth
      · exact Nat.zero_le _

/-- No well-formed term is wider than `maxWidth`. -/
theorem WellFormed.width_le {declared : List Variable} {memory : List Location} {t : Term}
    (hwf : t.WellFormed declared memory) (hdeclared : ∀ v ∈ declared, v.width ≤ maxWidth) :
    t.width ≤ maxWidth := by
  induction t using Term.inductionOn with
  | input v => exact hdeclared v hwf.fits.1
  | cell v l => exact hdeclared v hwf.fits.1
  | array v => exact Nat.zero_le _
  | literal n w => exact hwf.fits.2
  | truth b => exact Nat.zero_le _
  | apply head args w ih =>
      have hargs : ∀ u ∈ args, u.width ≤ maxWidth := fun u hu => ih u hu (hwf.arg hu)
      refine hwf.fits.width_le hargs fun u hu v hv => ?_
      have harray : (array v).Fits declared memory := hwf.arg hu _ hv
      exact hdeclared v harray.1

end Term

namespace Path

/-! ### Guarantees -/

/-- A term that occurs in one of the constraints. -/
def Occurs (constraints : List Constraint) (t : Term) : Prop :=
  ∃ c ∈ constraints, t ∈ c.term.parts

/-- What can be relied on in a path with these symbols, locations and constraints. -/
structure Guarantees (declared : List Variable) (memory : List Location)
    (constraints : List Constraint) : Prop where
  /-- Symbols have different names. -/
  names : (declared.map (·.name)).Nodup
  /-- Inputs are declared as inputs. -/
  inputs : ∀ v, Occurs constraints (.input v) → v ∈ declared ∧ v.role = .input
  /-- Memory symbols are declared as such, and their locations are touched, with name and width. -/
  cells : ∀ v l, Occurs constraints (.cell v l) →
    v ∈ declared ∧ v.role = .memory ∧ l ∈ memory ∧ l.name = v.name ∧ l.width = v.width
  /-- Arrays are declared as arrays. -/
  arrays : ∀ v, Occurs constraints (.array v) → v ∈ declared ∧ ∃ i, v.role = .array i
  /-- Known operators have as many arguments as their arity allows. -/
  arities : ∀ h args w o, Occurs constraints (.apply h args w) → h.op? = some o →
    o.arity.allows args.length
  /-- An extraction has two indices, and the upper one lies inside its argument. -/
  extracts : ∀ h args w, Occurs constraints (.apply h args w) → h.op? = some .extract →
    ∃ hi lo t, h.indices = [hi, lo] ∧ args = [t] ∧ lo ≤ hi ∧ hi < t.width
  /-- An extension has one index. -/
  extensions : ∀ h args w, Occurs constraints (.apply h args w) →
    h.op? = some .zeroExtend ∨ h.op? = some .signExtend → ∃ n, h.indices = [n]
  /-- A select or a store accesses an array below some stores, at a location that is touched. -/
  accesses : ∀ h args w, Occurs constraints (.apply h args w) →
    h.op? = some .select ∨ h.op? = some .store →
    ∃ l t rest v, h.location? = some l ∧ l ∈ memory ∧ args = t :: rest ∧ t.StoreChain v
  /-- Terms are at most `maxWidth` wide. -/
  widths : ∀ t, Occurs constraints t → t.width ≤ maxWidth
  /-- Literals have a width. -/
  literals : ∀ n w, Occurs constraints (.literal n w) → 1 ≤ w ∧ w ≤ maxWidth
  /-- Constraints are numbered in their order, and known by the text of their terms. -/
  numbered : ∀ (i : Nat) (c : Constraint), constraints[i]? = some c →
    c.index = i ∧ c.text = c.term.text
  /-- No constraint is a conjunction. -/
  split : ∀ c ∈ constraints, c.term.op? ≠ some .and

end Path

namespace Term

variable {declared : List Variable} {memory : List Location} {h : Head} {args : List Term} {w : Nat}

/-- A known operator has as many arguments as it allows. -/
theorem Fits.arity (hf : (apply h args w).Fits declared memory) {o : Op} (ho : h.op? = some o) :
    o.arity.allows args.length := by
  cases h with
  | op o' is =>
      cases ho
      exact hf.2.1
  | access k l =>
      cases ho
      exact hf.1
  | unknown name is => cases ho

/-- An extraction has two indices that lie within its one argument. -/
theorem Fits.extract (hf : (apply h args w).Fits declared memory) (ho : h.op? = some .extract) :
    ∃ hi lo t, h.indices = [hi, lo] ∧ args = [t] ∧ lo ≤ hi ∧ hi < t.width := by
  have harity := hf.arity ho
  cases h with
  | op o is =>
      cases ho
      have hlength : args.length = 1 := by
        obtain ⟨hleast, hmost⟩ := Op.Arity.allows_iff.mp harity
        exact Nat.le_antisymm (hmost 1 rfl) hleast
      obtain ⟨t, rfl⟩ := List.length_eq_one_iff.mp hlength
      have hwidth := hf.2.2
      match is with
      | [hi, lo] =>
          obtain ⟨hle, hlt, -⟩ := Path.resultWidth_extract hwidth
          exact ⟨hi, lo, t, rfl, rfl, hle, hlt⟩
      | [] => cases hwidth
      | [_] => cases hwidth
      | _ :: _ :: _ :: _ => cases hwidth
  | access k l => cases k <;> cases ho
  | unknown name is => cases ho

/-- An extension has one index. -/
theorem Fits.extension (hf : (apply h args w).Fits declared memory)
    (ho : h.op? = some .zeroExtend ∨ h.op? = some .signExtend) : ∃ n, h.indices = [n] := by
  cases h with
  | op o is =>
      have hwidth := hf.2.2
      match is with
      | [n] => exact ⟨n, rfl⟩
      | [] => rcases ho with ho | ho <;> cases ho <;> cases hwidth
      | _ :: _ :: _ => rcases ho with ho | ho <;> cases ho <;> cases hwidth
  | access k l => cases k <;> rcases ho with ho | ho <;> cases ho
  | unknown name is => rcases ho with ho | ho <;> cases ho

/-- An access has a location that was touched, and is to an array symbol below some stores. -/
theorem Fits.access (hf : (apply h args w).Fits declared memory)
    (ho : h.op? = some .select ∨ h.op? = some .store) :
    ∃ l t rest v, h.location? = some l ∧ l ∈ memory ∧ args = t :: rest ∧ t.StoreChain v := by
  cases h with
  | op o is =>
      -- a select or a store is only ever built with its location
      have hother : o.isMemory = false := hf.1
      rcases ho with ho | ho <;> cases ho <;> cases hother
  | access k l =>
      obtain ⟨-, hl, t, rest, v, hargs, hv, -⟩ := hf
      exact ⟨l, t, rest, v, rfl, hl, hargs, storeChain_of_arrayOf? hv⟩
  | unknown name is => rcases ho with ho | ho <;> cases ho

end Term

namespace Path

/-- What is built well has all guarantees. -/
theorem Builder.WellFormed.guarantees {b : Builder} (hb : b.WellFormed) :
    Guarantees b.declared b.memory b.constraints := by
  have hfits (t : Term) (ht : Occurs b.constraints t) : t.Fits b.declared b.memory := by
    obtain ⟨c, hc, ht⟩ := ht
    exact hb.terms c hc t ht
  exact {
    names := hb.names
    inputs := fun v ht => hfits _ ht
    cells := fun v l ht => hfits _ ht
    arrays := fun v ht => hfits _ ht
    arities := fun h args w o ht ho => (hfits _ ht).arity ho
    extracts := fun h args w ht ho => (hfits _ ht).extract ho
    extensions := fun h args w ht ho => (hfits _ ht).extension ho
    accesses := fun h args w ht ho => (hfits _ ht).access ho
    widths := by
      rintro t ⟨c, hc, ht⟩
      have hwf : t.WellFormed b.declared b.memory := fun u hu =>
        hb.terms c hc u (Term.parts_subset c.term t ht hu)
      exact hwf.width_le (fun v hv => (hb.widths v hv).2)
    literals := fun n w ht => hfits _ ht
    numbered := by
      intro i c hc
      have hi : i < b.constraints.length := (List.getElem?_eq_some_iff.mp hc).1
      have hindex := congrArg (·[i]?) hb.indices
      simp only [List.getElem?_map, hc, Option.map_some, List.getElem?_range hi,
        Option.some.injEq] at hindex
      exact ⟨hindex, rfl⟩
    split := hb.split }

/-- **What is read can be relied on**: every path that is read from a text has all guarantees, and
so has what is built from any bytes, each taken for a character. -/
theorem reading_guarantees :
    (∀ src name p, parse src name = .ok p → Guarantees p.declared p.memory p.constraints) ∧
    ∀ (bytes : List UInt8) (b : Builder), build (bytes.map fun x => Char.ofNat x.toNat) = .ok b →
      Guarantees b.declared b.memory b.constraints := by
  constructor
  · intro src name p h
    unfold parse at h
    simp only at h
    split at h
    · cases h
    · rename_i b hbuild
      cases h
      exact (wellFormed_of_build hbuild).guarantees
  · intro bytes b h
    exact (wellFormed_of_build h).guarantees

/-- A conjunction of an access below a store and of an extraction is read, and so is a symbol whose
name is a byte that is no character. -/
theorem reading_guarantees_store :
    let src := "(declare-const m (Array (_ BitVec 2) (_ BitVec 2)))
      (assert (let ((s (store m #b01 #b10)))
        (and (= (select s #b01) #b10) (= ((_ extract 0 0) (select s #b11)) #b1))))"
    let bytes : List UInt8 :=
      "(declare-const ".toUTF8.toList ++ [0x80] ++ " (_ BitVec 1))".toUTF8.toList
    (∃ p, parse src "p" = .ok p ∧ p.memory.length = 2 ∧ p.constraints.length = 2 ∧
      Guarantees p.declared p.memory p.constraints) ∧
    ∃ b, build (bytes.map fun x => Char.ofNat x.toNat) = .ok b ∧ b.declared.length = 1 ∧
      Guarantees b.declared b.memory b.constraints := by
  intro src bytes
  constructor
  · have hfacts : (parse src "p").toOption.any (fun p =>
        p.memory.length == 2 && p.constraints.length == 2) = true := by
      decide +kernel
    obtain ⟨p, hp, hfacts⟩ := exists_of_parse hfacts
    simp only [Bool.and_eq_true, beq_iff_eq] at hfacts
    exact ⟨p, hp, hfacts.1, hfacts.2, reading_guarantees.1 src "p" p hp⟩
  · have hfacts : (build (bytes.map fun x => Char.ofNat x.toNat)).toOption.any
        (fun b => b.declared.length == 1) = true := by
      decide +kernel
    cases hbuild : build (bytes.map fun x => Char.ofNat x.toNat) with
    | error e =>
        rw [hbuild] at hfacts
        cases hfacts
    | ok b =>
        rw [hbuild] at hfacts
        exact ⟨b, rfl, beq_iff_eq.mp hfacts, reading_guarantees.2 bytes b hbuild⟩

end Path

end Pathwise
