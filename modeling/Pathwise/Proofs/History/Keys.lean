import Mathlib.Data.List.Basic
import Pathwise.History.Key

/-!
# Maps in byte order

What `KeyMap` promises to those who keep values in it, and which keys a range has.

* **Texts as keys** (`Key.ofText_inj`, `Key.ofText_append`): the key of a text is known by its
  bytes, and the bytes of texts put together are the bytes put together.
* **Order** (`Key.before_iff_lt`): byte order is the lexicographic order of lists.
* **Ranges** (`Key.inRange_beyond_iff`, `Key.isPrefix_iff_le_and_lt_beyond`): from a key on, and
  below what `beyond?` gives, lie exactly the keys that begin with it. No other bound has these keys
  (`Key.high_eq_of_inRange_eq`).
* **Look-up** (`KeyMap.get?_insert`, `KeyMap.get?_erase`): a map is a function from keys to values.
  In a map whose keys ascend, each value stands at its key and only there
  (`KeyMap.Ascending.mem_iff`), and `insert` and `erase` keep it so.
-/

namespace Pathwise

namespace Key

/-! ### Texts as keys -/

/-- The loop that lists bytes lists those from its index on. -/
theorem loop_toList (bytes : ByteArray) (i : Nat) (done : List UInt8) :
    ByteArray.toList.loop bytes i done = done.reverse ++ bytes.data.toList.drop i := by
  induction i, done using ByteArray.toList.loop.induct bytes with
  | case1 i done hi ih =>
      have hlt : i < bytes.data.toList.length := by simpa using hi
      have hget : bytes.get! i = bytes.data.toList[i] := by
        change bytes.data[i]! = bytes.data.toList[i]
        rw [getElem!_pos bytes.data i (by simpa using hlt), Array.getElem_toList]
      rw [ByteArray.toList.loop, if_pos hi, ih, hget, List.drop_eq_getElem_cons hlt]
      simp
  | case2 i done hi =>
      have hdrop : bytes.data.toList.drop i = [] := by
        rw [List.drop_eq_nil_iff]
        simpa using hi
      rw [ByteArray.toList.loop, if_neg hi, hdrop, List.append_nil]

/-- The key of a text has its bytes. -/
theorem ofText_eq (s : String) : ofText s = s.toByteArray.data.toList := by
  unfold ofText ByteArray.toList
  rw [loop_toList]
  rfl

/-- The bytes of texts put together are the bytes put together. -/
theorem ofText_append (s t : String) : ofText (s ++ t) = ofText s ++ ofText t := by
  rw [ofText_eq, ofText_eq, ofText_eq, String.toByteArray_append]
  simp

/-- Different texts have different keys. -/
theorem ofText_inj {s t : String} : ofText s = ofText t ↔ s = t := by
  rw [ofText_eq, ofText_eq, Array.toList_inj, ← String.toByteArray_inj, ByteArray.ext_iff]

/-! ### Order -/

/-- Bytes are compared from the first on. -/
theorem before_cons {a b : UInt8} {as bs : Key} :
    before (a :: as) (b :: bs) = true ↔ a < b ∨ a = b ∧ before as bs = true := by
  simp [before]

/-- Byte order is the lexicographic order of lists. -/
theorem before_iff_lt {k l : Key} : before k l = true ↔ k < l := by
  induction k generalizing l with
  | nil => cases l <;> simp [before]
  | cons a as ih =>
      cases l with
      | nil => simp [before]
      | cons b bs => rw [before_cons, ih, List.cons_lt_cons_iff]

/-- A key that does not come before another comes after it or is the same. -/
theorem before_eq_false_iff {k l : Key} : before k l = false ↔ l ≤ k := by
  rw [← Bool.not_eq_true, before_iff_lt, List.not_lt]

/-- No key comes before itself. -/
theorem before_irrefl (k : Key) : before k k = false :=
  before_eq_false_iff.mpr (List.le_refl k)

/-- Byte order is transitive. -/
theorem before_trans {k l m : Key} (hkl : before k l = true) (hlm : before l m = true) :
    before k m = true := by
  rw [before_iff_lt] at hkl hlm ⊢
  exact List.lt_trans hkl hlm

/-- Of two different keys one comes before the other. -/
theorem before_of_not_before {k l : Key} (h : before k l = false) (hne : k ≠ l) :
    before l k = true := by
  rw [before_eq_false_iff, List.le_iff_lt_or_eq] at h
  exact before_iff_lt.mpr (h.resolve_right fun heq => hne heq.symm)

/-! ### Ranges -/

/-- A range goes from its lower end to before its upper end, if it has one. -/
theorem inRange_iff {low k : Key} {high? : Option Key} :
    inRange low high? k = true ↔ low ≤ k ∧ ∀ high, high? = some high → k < high := by
  cases high? <;> simp [inRange, before_iff_lt, before_eq_false_iff]

/-- No byte is greater than 255. -/
theorem not_255_lt (a : UInt8) : ¬ 255 < a := by
  rw [UInt8.lt_iff_toNat_lt]
  exact Nat.not_lt.mpr (Nat.le_of_lt_succ a.toNat_lt)

/-- Below the next byte are this one and those below it. -/
theorem lt_next_iff {a b : UInt8} (hb : b ≠ 255) : a < b + 1 ↔ a < b ∨ a = b := by
  have hlt : b.toNat < 255 := by
    have := b.toNat_lt
    have : b.toNat ≠ 255 := fun h => hb (UInt8.toNat_inj.mp h)
    omega
  have hnext : (b + 1).toNat = b.toNat + 1 := by
    rw [UInt8.toNat_add]
    exact Nat.mod_eq_of_lt (by simpa using by omega)
  rw [UInt8.lt_iff_toNat_lt, UInt8.lt_iff_toNat_lt, ← UInt8.toNat_inj, hnext]
  omega

/-- The keys in the range of a key are those that begin with it. Byte by byte, the lower bound rules
out smaller bytes and the upper bound greater ones, until the key has ended. -/
theorem inRange_beyond_iff (p k : Key) : inRange p p.beyond? k = true ↔ p <+: k := by
  induction p generalizing k with
  | nil => simp [inRange_iff, beyond?]
  | cons b bs ih =>
      cases k with
      | nil => simp [inRange_iff, List.le_nil]
      | cons a as =>
          rw [List.cons_prefix_cons, ← ih as, inRange_iff, inRange_iff, List.cons_le_cons_iff]
          cases hbs : beyond? bs with
          | some high =>
              simp only [beyond?, hbs, Option.some.injEq, forall_eq', List.cons_lt_cons_iff]
              grind
          | none =>
              by_cases hb : b = 255
              · -- no byte is above the last one, so there is nothing to bound
                subst hb
                have hmax := not_255_lt a
                simp only [beyond?, hbs]
                grind
              · simp only [beyond?, hbs, hb, if_false, Option.some.injEq, forall_eq',
                  List.cons_lt_cons_iff, lt_next_iff hb, List.not_lt_nil, and_false, or_false]
                grind

/-- The bound is found from the last byte on: bytes 255 carry, and the first other one is raised. -/
theorem beyond?_concat (p : Key) (b : UInt8) :
    beyond? (p ++ [b]) = if b = 255 then beyond? p else some (p ++ [b + 1]) := by
  induction p with
  | nil => rfl
  | cons a p ih =>
      rw [List.cons_append, beyond?, ih]
      by_cases hb : b = 255
      · rw [if_pos hb, if_pos hb, beyond?]
      · rw [if_neg hb, if_neg hb, List.cons_append]

example : beyond? [1, 255, 255] = some [2] ∧ beyond? [255, 255] = none := by decide

/-- A key outside of a range that is not below it is beyond its upper end. -/
theorem exists_le_of_not_inRange {low k : Key} {high? : Option Key}
    (h : ¬ inRange low high? k = true) (hlow : low ≤ k) : ∃ high, high? = some high ∧ high ≤ k := by
  rw [inRange_iff] at h
  simpa [hlow, List.not_lt] using h

/-- The upper bound of a range is known by its keys: it is the least key above the lower bound that
is not in the range. -/
theorem exists_le_of_inRange_eq {low e : Key} {high? : Option Key}
    (hkeys : ∀ k, inRange low (some e) k = inRange low high? k)
    (hlow : inRange low high? low = true) : ∃ high, high? = some high ∧ high ≤ e := by
  rw [← hkeys, inRange_iff] at hlow
  have hout : ¬ inRange low (some e) e = true := by
    intro he
    exact List.lt_irrefl e ((inRange_iff.mp he).2 e rfl)
  rw [hkeys] at hout
  exact exists_le_of_not_inRange hout (List.le_of_lt (hlow.2 e rfl))

/-- A range with a key in it is known by its keys. -/
theorem high_eq_of_inRange_eq {low : Key} {high? other? : Option Key}
    (hkeys : ∀ k, inRange low high? k = inRange low other? k)
    (hlow : inRange low other? low = true) : high? = other? := by
  have hlow' : inRange low high? low = true := (hkeys low).trans hlow
  cases high? with
  | none =>
      cases other? with
      | none => rfl
      | some e =>
          obtain ⟨_, h, -⟩ := exists_le_of_inRange_eq (fun k => (hkeys k).symm) hlow'
          cases h
  | some e =>
      obtain ⟨d, rfl, hde⟩ := exists_le_of_inRange_eq hkeys hlow
      obtain ⟨_, ⟨⟩, hed⟩ := exists_le_of_inRange_eq (fun k => (hkeys k).symm) hlow'
      rw [List.le_antisymm hed hde]

/-- **The keys that begin with a key are those from it on and below its bound.** If it has no bound,
all keys from it on begin with it. No other bound would do, and this one is found by carrying. -/
theorem isPrefix_iff_le_and_lt_beyond (p : Key) :
    (∀ k, p <+: k ↔ p ≤ k ∧ ∀ e, p.beyond? = some e → k < e) ∧
    (∀ high?, (∀ k, p <+: k ↔ p ≤ k ∧ ∀ e, high? = some e → k < e) → high? = p.beyond?) ∧
    ∀ b, beyond? (p ++ [b]) = if b = 255 then p.beyond? else some (p ++ [b + 1]) := by
  refine ⟨?_, ?_, beyond?_concat p⟩
  · intro k
    rw [← inRange_beyond_iff, inRange_iff]
  · intro high? hkeys
    refine high_eq_of_inRange_eq ?_ ((inRange_beyond_iff p p).mpr List.prefix_rfl)
    intro k
    rw [Bool.eq_iff_iff, inRange_beyond_iff, hkeys, inRange_iff]

end Key

namespace KeyMap

variable {α : Type}

/-! ### Look-up -/

/-- Nothing is found in an empty map. -/
@[simp]
theorem get?_empty (k : Key) : (empty : KeyMap α).get? k = none := rfl

/-- A value that was inserted is found, and all others as before. -/
theorem get?_insert (m : KeyMap α) (k l : Key) (v : α) :
    (m.insert k v).get? l = if l = k then some v else m.get? l := by
  unfold get? insert
  induction m.entries with
  | nil =>
      rw [insertEntry]
      grind
  | cons e es ih =>
      obtain ⟨j, w⟩ := e
      rw [insertEntry]
      by_cases hl : l = k
      · subst hl
        grind
      · grind

/-- What was erased is not found, and all others are as before. -/
theorem get?_erase (m : KeyMap α) (k l : Key) :
    (m.erase k).get? l = if l = k then none else m.get? l := by
  unfold get? erase
  induction m.entries with
  | nil => simp
  | cons e es ih =>
      obtain ⟨j, w⟩ := e
      rw [List.filter_cons]
      by_cases hj : j = k <;> grind

/-! ### Ascending keys -/

/-- Each key comes before those after it. -/
def Ascending (m : KeyMap α) : Prop :=
  m.entries.Pairwise fun a b => a.1.before b.1 = true

/-- An empty map is in order. -/
theorem ascending_empty : (empty : KeyMap α).Ascending :=
  List.Pairwise.nil

/-- Erasing keeps the order. -/
theorem Ascending.erase {m : KeyMap α} (h : m.Ascending) (k : Key) : (m.erase k).Ascending :=
  List.Pairwise.sublist List.filter_sublist h

/-- Inserting adds no other entry. -/
theorem mem_insertEntry {k : Key} {v : α} {es : List (Key × α)} {e : Key × α}
    (h : e ∈ insertEntry k v es) : e = (k, v) ∨ e ∈ es := by
  induction es with
  | nil => exact .inl (List.mem_singleton.mp h)
  | cons d es ih =>
      obtain ⟨l, w⟩ := d
      unfold insertEntry at h
      split at h
      · exact List.mem_cons.mp h
      · split at h
        · rcases List.mem_cons.mp h with h | h
          · exact .inl h
          · exact .inr (List.mem_cons_of_mem _ h)
        · rcases List.mem_cons.mp h with h | h
          · exact .inr (h ▸ List.mem_cons_self)
          · exact (ih h).imp_right (List.mem_cons_of_mem _)

/-- Inserting keeps the order. -/
theorem Ascending.insert {m : KeyMap α} (h : m.Ascending) (k : Key) (v : α) :
    (m.insert k v).Ascending := by
  obtain ⟨es⟩ := m
  unfold Ascending KeyMap.insert at *
  induction es with
  | nil => exact List.pairwise_singleton _ _
  | cons d es ih =>
      obtain ⟨l, w⟩ := d
      obtain ⟨hl, hes⟩ := List.pairwise_cons.mp h
      unfold insertEntry
      split
      · rename_i hkl
        refine List.pairwise_cons.mpr ⟨?_, h⟩
        intro e he
        rcases List.mem_cons.mp he with rfl | he
        · exact hkl
        · exact Key.before_trans hkl (hl e he)
      · rename_i hkl
        split
        · rename_i heq
          subst heq
          exact List.pairwise_cons.mpr ⟨hl, hes⟩
        · rename_i hne
          refine List.pairwise_cons.mpr ⟨?_, ih hes⟩
          intro e he
          rcases mem_insertEntry he with rfl | he
          · exact Key.before_of_not_before (by simpa using hkl) hne
          · exact hl e he

/-- In a map with ascending keys, what is listed is what is looked up. -/
theorem Ascending.mem_iff {m : KeyMap α} (h : m.Ascending) {k : Key} {v : α} :
    (k, v) ∈ m.entries ↔ m.get? k = some v := by
  obtain ⟨es⟩ := m
  unfold Ascending get? at *
  induction es with
  | nil => simp
  | cons d es ih =>
      obtain ⟨l, w⟩ := d
      obtain ⟨hl, hes⟩ := List.pairwise_cons.mp h
      rw [List.mem_cons, ih hes, List.lookup_cons]
      by_cases hkl : k = l
      · subst hkl
        have hfresh : es.lookup k ≠ some v := by
          intro hv
          have hbefore := hl (k, v) ((ih hes).mpr hv)
          rw [Key.before_irrefl] at hbefore
          cases hbefore
        simp [hfresh, eq_comm]
      · have hbeq : (k == l) = false := beq_eq_false_iff_ne.mpr hkl
        simp [hkl, hbeq]

end KeyMap

end Pathwise
