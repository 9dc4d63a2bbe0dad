import Pathwise.Proofs.History.Refinement
import Pathwise.Proofs.Text.Numeral

/-!
# Lists of reports begin with the newest

The order of a list is that of the keys of its entries, which are texts. This file says that it is
the order of time.

* **Numerals** (`Key.before_numeral_iff`): numerals of one width come in byte order as their numbers
  do. What follows them counts only where the numbers are the same.
* **Keys** (`History.before_entryKey_iff`): so keys of entries come in the order of time, and in
  that of ids where the times are the same. The times have to fit the keys (`Instant.InEpoch`).
* **Lists** (`History.list_newest_first`): entries are listed from the last key to the first.
-/

namespace Pathwise

namespace Key

/-! ### Numerals -/

/-- Keys with the same beginning are ordered by what follows it. -/
theorem before_append_left (p k l : Key) : before (p ++ k) (p ++ l) = before k l := by
  induction p with
  | nil => rfl
  | cons a p ih => simp [before, ih]

/-- The bytes of a text are those of its characters, one after the other. -/
theorem ofText_cons (c : Char) (cs : List Char) :
    ofText (String.ofList (c :: cs)) = ofText (String.ofList [c]) ++ ofText (String.ofList cs) := by
  rw [← ofText_append, ← String.ofList_append, List.singleton_append]

/-- A digit is one byte. -/
theorem ofText_digit {c : Char} {d : Nat} (h : Text.IsDigitOf 10 c d) :
    ofText (String.ofList [c]) = [UInt8.ofNat (48 + d)] := by
  obtain ⟨hd, hc⟩ := h
  have hchar : c = d.digitChar := by
    rcases hc with rfl | rfl
    · rfl
    · interval_cases d <;> rfl
  subst hchar
  interval_cases d <;> decide +kernel

/-- The bytes of digits have the order of the digits. -/
theorem digit_lt_iff {d e : Nat} (hd : d < 10) (he : e < 10) :
    UInt8.ofNat (48 + d) < UInt8.ofNat (48 + e) ↔ d < e := by
  rw [UInt8.lt_iff_toNat_lt, UInt8.toNat_ofNat', UInt8.toNat_ofNat']
  omega

/-- Different digits are different bytes. -/
theorem digit_inj {d e : Nat} (hd : d < 10) (he : e < 10) :
    UInt8.ofNat (48 + d) = UInt8.ofNat (48 + e) ↔ d = e := by
  rw [← UInt8.toNat_inj, UInt8.toNat_ofNat', UInt8.toNat_ofNat']
  omega

/-- The highest digit decides between two numbers, unless it is the same in both. -/
theorem places_lt_iff {b x y d e : Nat} (hx : x < b) (hy : y < b) :
    x + b * d < y + b * e ↔ d < e ∨ d = e ∧ x < y := by
  have hmul {m n : Nat} (h : m < n) : b * m + b ≤ b * n := by
    rw [← Nat.mul_succ]
    exact Nat.mul_le_mul_left b h
  rcases Nat.lt_trichotomy d e with hde | rfl | hde
  · have := hmul hde
    omega
  · omega
  · have := hmul hde
    omega

/-- Keys that begin with numerals of one width come in the order of the numbers, and where these are
the same, in the order of what follows. The induction is over the digits, the highest first. -/
theorem before_numeral_iff {cs cs' : List Char} {ds ds' : List Nat}
    (hcs : List.Forall₂ (Text.IsDigitOf 10) cs ds) (hcs' : List.Forall₂ (Text.IsDigitOf 10) cs' ds')
    (hlength : ds.length = ds'.length) (k l : Key) :
    before (ofText (String.ofList cs) ++ k) (ofText (String.ofList cs') ++ l) = true ↔
      Nat.ofDigits 10 ds.reverse < Nat.ofDigits 10 ds'.reverse ∨
        Nat.ofDigits 10 ds.reverse = Nat.ofDigits 10 ds'.reverse ∧ before k l = true := by
  have hbound {cs : List Char} {ds : List Nat} (h : List.Forall₂ (Text.IsDigitOf 10) cs ds) :
      Nat.ofDigits 10 ds.reverse < 10 ^ ds.length := by
    have hdigits : ∀ d ∈ ds.reverse, d < 10 := by
      intro d hd
      exact Text.isDigitOf_lt h d (List.mem_reverse.mp hd)
    simpa using Nat.ofDigits_lt_base_pow_length (by decide) hdigits
  induction hcs generalizing cs' ds' with
  | nil =>
      obtain rfl : ds' = [] := List.length_eq_zero_iff.mp hlength.symm
      cases hcs'
      simp [before_append_left]
  | @cons c d cs ds hd hds ih =>
      obtain _ | ⟨e, ds'⟩ := ds'
      · cases hlength
      obtain ⟨c', cs', he, hds', rfl⟩ := List.forall₂_cons_right_iff.mp hcs'
      have hlength : ds.length = ds'.length := Nat.succ.inj hlength
      have hx := hbound hds
      have hy : Nat.ofDigits 10 ds'.reverse < 10 ^ ds.length := hlength ▸ hbound hds'
      have hrest := ih hds' hlength
      have hlt := places_lt_iff (d := d) (e := e) hx hy
      have hgt := places_lt_iff (d := e) (e := d) hy hx
      simp only [List.reverse_cons, Nat.ofDigits_append, Nat.ofDigits_singleton,
        List.length_reverse, ← hlength]
      rw [ofText_cons c, ofText_cons c', ofText_digit hd, ofText_digit he, List.append_assoc,
        List.append_assoc, List.singleton_append, List.singleton_append, before_cons,
        digit_lt_iff hd.1 he.1, digit_inj hd.1 he.1]
      grind

/-- Numbers of one length are ordered as texts like as numbers. -/
theorem before_padLeft_iff {w m n : Nat} (hw : 0 < w) (hm : m < 10 ^ w) (hn : n < 10 ^ w)
    (k l : Key) :
    before (ofText (Text.padLeft w '0' (toString m)) ++ k)
        (ofText (Text.padLeft w '0' (toString n)) ++ l) = true ↔
      m < n ∨ m = n ∧ before k l = true := by
  have hdigits (x : Nat) : ∃ ds, List.Forall₂ (Text.IsDigitOf 10)
      (Text.padLeft w '0' (toString x)).toList ds ∧ x = Nat.ofDigits 10 ds.reverse := by
    have hread : Text.moreDigits? 10 0 (Text.padLeft w '0' (toString x)).toList = some x :=
      Text.moreDigits?_padLeft (by decide) (by decide) w x
    simpa only [Text.moreDigits?_eq_some_iff (by decide : 10 ≤ 16), Nat.zero_mul, Nat.zero_add]
      using hread
  have hwidth {x : Nat} (hx : x < 10 ^ w) :
      (Text.padLeft w '0' (toString x)).toList.length = w :=
    Text.length_padLeft (by decide) hw hx
  obtain ⟨ds, hds, hvalue⟩ := hdigits m
  obtain ⟨ds', hds', hvalue'⟩ := hdigits n
  have hlength : ds.length = ds'.length := by
    rw [← hds.length_eq, ← hds'.length_eq, hwidth hm, hwidth hn]
  have hiff := before_numeral_iff hds hds' hlength k l
  rwa [String.ofList_toList, String.ofList_toList, ← hvalue, ← hvalue'] at hiff

end Key

/-! ### Keys -/

namespace Instant

/-- The nanoseconds from the start of 1970 to an instant. -/
def sinceEpoch (t : Instant) : Int :=
  t.seconds * 10 ^ 9 + t.nanoseconds

/-- An instant that keys can tell: it is not before 1970, and its nanoseconds fit in 63 bits. -/
def InEpoch (t : Instant) : Prop :=
  0 ≤ t.sinceEpoch ∧ t.sinceEpoch < 2 ^ 63

instance (t : Instant) : Decidable t.InEpoch :=
  inferInstanceAs (Decidable (_ ∧ _))

/-- A time within the epoch is written without overflow. -/
theorem InEpoch.unixNanoseconds_eq {t : Instant} (h : t.InEpoch) :
    t.unixNanoseconds = t.sinceEpoch := by
  obtain ⟨hlow, hhigh⟩ := h
  refine Int.bmod_eq_of_le_mul_two ?_ ?_
  · change -((2 ^ 64 : Nat) : Int) ≤ t.sinceEpoch * 2
    omega
  · change t.sinceEpoch * 2 < ((2 ^ 64 : Nat) : Int)
    omega

end Instant

namespace History

/-- The key of an entry has the time in twenty digits, and then the id. -/
theorem entryKey_eq {t : Instant} (h : t.InEpoch) (id : String) :
    entryKey t id = Key.ofText "time:" ++ (Key.ofText (Text.padLeft 20 '0'
      (toString t.sinceEpoch.toNat)) ++ (Key.ofText ":" ++ Key.ofText id)) := by
  have hlow := h.1
  have hnumeral : Text.padded 20 t.unixNanoseconds =
      Text.padLeft 20 '0' (toString t.sinceEpoch.toNat) := by
    unfold Text.padded
    rw [h.unixNanoseconds_eq, if_neg (by omega)]
    congr 2
    omega
  unfold entryKey
  rw [hnumeral, Key.ofText_append, Key.ofText_append, Key.ofText_append, List.append_assoc,
    List.append_assoc]

/-- Keys of entries come in the order of time, and at one time in the order of ids. -/
theorem before_entryKey_iff {t u : Instant} {i j : String} (ht : t.InEpoch) (hu : u.InEpoch) :
    (entryKey t i).before (entryKey u j) = true ↔
      t.sinceEpoch < u.sinceEpoch ∨
        t.sinceEpoch = u.sinceEpoch ∧ (Key.ofText i).before (Key.ofText j) = true := by
  have hlt : t.sinceEpoch.toNat < u.sinceEpoch.toNat ↔ t.sinceEpoch < u.sinceEpoch := by
    have := ht.1
    have := hu.1
    omega
  have heq : t.sinceEpoch.toNat = u.sinceEpoch.toNat ↔ t.sinceEpoch = u.sinceEpoch := by
    have := ht.1
    have := hu.1
    omega
  have hwide {v : Instant} (hv : v.InEpoch) : v.sinceEpoch.toNat < 10 ^ 20 := by
    have := hv.2
    omega
  rw [entryKey_eq ht, entryKey_eq hu, Key.before_append_left,
    Key.before_padLeft_iff (by decide) (hwide ht) (hwide hu), Key.before_append_left, hlt, heq]

end History

/-! ### Lists -/

/-- An entry is newer than another, or as old and its id comes later in byte order. -/
def HistoryEntry.Precedes (e d : HistoryEntry) : Prop :=
  d.startedAt.sinceEpoch < e.startedAt.sinceEpoch ∨
    d.startedAt.sinceEpoch = e.startedAt.sinceEpoch ∧
      (Key.ofText d.id).before (Key.ofText e.id) = true

namespace History

/-- **Lists begin with the newest report.** If all reports that are there can be told by the time in
their keys, all of them are listed, newer ones before older ones, and a list of `n` entries has the
first `n` of these. -/
theorem list_newest_first (calls : List Call)
    (hlive : ∀ id r, Shelf.run calls id = some r → r.startedAt.InEpoch) :
    (∀ e, e ∈ (run calls).list 0 ↔ ∃ id r, Shelf.run calls id = some r ∧ e = r.entry) ∧
    ((run calls).list 0).Pairwise HistoryEntry.Precedes ∧
    ∀ n : Nat, 0 < n → (run calls).list n = ((run calls).list 0).take n := by
  have hr := refines_run calls
  rw [list_zero]
  refine ⟨fun e => hr.mem_entries_iff, ?_, ?_⟩
  · refine hr.pairwise_entries ?_
    intro i q j r hi hj hkeys
    have hids : q.id = i ∧ r.id = j := ⟨hr.named i q hi, hr.named j r hj⟩
    rw [before_entryKey_iff (hlive i q hi) (hlive j r hj), ← hids.1, ← hids.2] at hkeys
    exact hkeys
  · intro n hn
    have hpositive : ¬ (n : Int) ≤ 0 := by omega
    rw [list_eq, if_neg hpositive, Int.toNat_natCast]

/-- A report of which only the id and the time are known. -/
def dated (id : String) (seconds : Int) : Report :=
  { (default : Report) with id, startedAt := ⟨seconds, 0, 0⟩ }

/-- Reports at 9 and twice at 10 seconds. One from before 1970 is taken out again. -/
def tenSeconds : List Call :=
  [.put (dated "a" 10), .put (dated "old" (-1)), .put (dated "a:" 10), .put (dated "b" 9),
    .delete "old"]

/-- Reports of the same time are listed by id, the greater first. -/
theorem list_newest_first_tie :
    (∀ id r, Shelf.run tenSeconds id = some r → r.startedAt.InEpoch) ∧
      ((run tenSeconds).list 0).map (·.id) = ["a:", "a", "b"] ∧
      ((run tenSeconds).list 0).Pairwise HistoryEntry.Precedes := by
  have hlive : ∀ id r, Shelf.run tenSeconds id = some r → r.startedAt.InEpoch := by
    intro id r hr
    have hlisted : ∀ e ∈ (run tenSeconds).entries, e.startedAt.InEpoch := by decide +kernel
    exact hlisted _ ((refines_run tenSeconds).mem_entries_iff.mpr ⟨id, r, hr, rfl⟩)
  exact ⟨hlive, by decide +kernel, (list_newest_first tenSeconds hlive).2.1⟩

end History

end Pathwise
