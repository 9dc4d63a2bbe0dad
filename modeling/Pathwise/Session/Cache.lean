/-!
# Caches

A session remembers verdicts in a bounded map that a library provides. What it relies on is that
nothing is found there but what was put in, and that the map keeps to its size; which entries are
forgotten, and when, is up to the library. One such map forgets the entry which has not been used
for longest.
-/

namespace Pathwise

/-- A bounded map from keys to values, as a library provides it. -/
structure BoundedMap (κ α : Type) where
  /-- The states of a map. -/
  State : Type
  /-- The map without entries, with room for a number of them. -/
  empty : Nat → State
  /-- The value of a key, if it is there, and the map after it was asked for. -/
  get : State → κ → Option α × State
  /-- The map with a value for a key. -/
  add : State → κ → α → State
  /-- For how many entries there is room. -/
  capacity : State → Nat
  /-- What the map holds. -/
  entries : State → List (κ × α)
  entries_empty : ∀ n, entries (empty n) = []
  mem_entries_of_get : ∀ {m key v}, (get m key).1 = some v → (key, v) ∈ entries m
  entries_get : ∀ m key, entries (get m key).2 ⊆ entries m
  entries_add : ∀ m key v, entries (add m key v) ⊆ (key, v) :: entries m
  capacity_empty : ∀ n, capacity (empty n) = n
  capacity_get : ∀ m key, capacity (get m key).2 = capacity m
  capacity_add : ∀ m key v, capacity (add m key v) = capacity m
  length_entries : ∀ m, (entries m).length ≤ capacity m

/-- A map with at most `capacity` entries, in the order of their last use, the newest first. -/
structure Cache (κ α : Type) where
  capacity : Nat
  entries : List (κ × α)
  length_entries : entries.length ≤ capacity

namespace Cache

variable {κ α : Type} [DecidableEq κ]

/-- The cache without entries. -/
def empty (capacity : Nat) : Cache κ α :=
  ⟨capacity, [], Nat.zero_le _⟩

/-- The value of a key. -/
def find? (c : Cache κ α) (key : κ) : Option α :=
  (c.entries.find? (·.1 == key)).map (·.2)

/-- The entries with other keys. -/
def others (c : Cache κ α) (key : κ) : List (κ × α) :=
  c.entries.filter (·.1 != key)

/-- What is found is an entry. -/
theorem mem_entries_of_find? {c : Cache κ α} {key : κ} {v : α} (h : c.find? key = some v) :
    (key, v) ∈ c.entries := by
  obtain ⟨e, he, rfl⟩ := Option.map_eq_some_iff.mp h
  have hkey : e.1 = key := by simpa using List.find?_some he
  rw [← hkey]
  exact List.mem_of_find?_eq_some he

/-- The other entries are entries. -/
theorem others_subset (c : Cache κ α) (key : κ) : c.others key ⊆ c.entries :=
  List.filter_sublist.subset

/-- Where a key is found, the others are fewer. -/
theorem length_others_lt {c : Cache κ α} {key : κ} {v : α} (h : c.find? key = some v) :
    (c.others key).length < c.entries.length := by
  refine List.length_filter_lt_length_iff_exists.mpr ⟨_, mem_entries_of_find? h, ?_⟩
  simp

/-- The value of a key, if it is there, and the cache in which it is the newest. -/
def get (c : Cache κ α) (key : κ) : Option α × Cache κ α :=
  match h : c.find? key with
  | some v =>
    (some v, { c with
      entries := (key, v) :: c.others key
      length_entries := Nat.le_trans (length_others_lt h) c.length_entries })
  | none => (none, c)

/-- The cache with a value for a key. If there is no room the oldest entry is forgotten. -/
def add (c : Cache κ α) (key : κ) (v : α) : Cache κ α :=
  { c with
    entries := ((key, v) :: c.others key).take c.capacity
    length_entries := List.length_take_le _ _ }

/-- What was just put in is found, if there is room for anything. -/
theorem find?_add {c : Cache κ α} (hcapacity : 0 < c.capacity) (key : κ) (v : α) :
    (c.add key v).find? key = some v := by
  obtain ⟨n, hn⟩ := Nat.exists_eq_add_one_of_ne_zero (Nat.ne_of_gt hcapacity)
  simp [add, find?, hn]

/-- What is known of a key is what is found, whether or not it is used then. -/
theorem get_fst (c : Cache κ α) (key : κ) : (c.get key).1 = c.find? key := by
  unfold get
  split <;> simp_all

/-- Using an entry only moves it. -/
theorem entries_get_subset (c : Cache κ α) (key : κ) : (c.get key).2.entries ⊆ c.entries := by
  unfold get
  split
  · rename_i v hv
    exact List.cons_subset.mpr ⟨mem_entries_of_find? hv, c.others_subset key⟩
  · exact List.Subset.refl _

/-- A new entry can push out others, and that is all that happens to them. -/
theorem entries_add_subset (c : Cache κ α) (key : κ) (v : α) :
    (c.add key v).entries ⊆ (key, v) :: c.entries := by
  intro e he
  rcases List.mem_cons.mp (List.mem_of_mem_take he) with rfl | he
  · exact List.mem_cons_self
  · exact List.mem_cons_of_mem _ (c.others_subset key he)

/-- The bounded map that forgets the entry which has not been used for longest. -/
def leastRecent (κ α : Type) [DecidableEq κ] : BoundedMap κ α where
  State := Cache κ α
  empty := empty
  get := get
  add := add
  capacity := capacity
  entries := entries
  entries_empty _ := rfl
  mem_entries_of_get h := mem_entries_of_find? ((get_fst _ _).symm.trans h)
  entries_get := entries_get_subset
  entries_add := entries_add_subset
  capacity_empty _ := rfl
  capacity_get c key := by
    unfold get
    split <;> rfl
  capacity_add _ _ _ := rfl
  length_entries := length_entries

end Cache

end Pathwise
