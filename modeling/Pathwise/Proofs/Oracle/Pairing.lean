import Mathlib.Data.List.Induction
import Mathlib.Data.List.Perm.Basic
import Pathwise.Proofs.Oracle.Decision
import Pathwise.Proofs.Term.Faults

/-!
# What the paired symbols name

Pairing gives each symbol a name on one side or on both. Read from one side, the symbols are the
inputs and the elements of memory of that path, each of them once, so that a sample gives each of
them one number.

* **Keys** (`Path.eq_of_memoryKey`): different locations of a path have different keys, because the
  locations at one address are numbered.
* **Pairing** (`Symbol.pairMemory_eq`): so no key opens a second symbol on a side, and the symbols
  for memory are one for each key.
* **Names** (`Symbol.names_of_pair`): on each side, the symbols have the names of the inputs and of
  the touched locations, up to their order.
* **Samples** (`Sampling.assignment_of_place`): the symbol at a place gives its names, on both
  sides, the number that the sample has there.
-/

namespace Pathwise

/-! ### Keys -/

namespace Path

variable {p : Path}

/-- No location of a base is below its lowest address. -/
theorem lowestAddress_le {l : Location} (hl : l ∈ p.memory) :
    p.lowestAddress l.base ≤ l.address := by
  have hmem : l.address ∈ (p.memory.filter (·.base == l.base)).map (·.address) :=
    List.mem_map_of_mem (List.mem_filter.mpr ⟨hl, by simp⟩)
  unfold lowestAddress
  cases hmin : ((p.memory.filter (·.base == l.base)).map (·.address)).min? with
  | none => exact Nat.zero_le _
  | some n => exact (List.min?_eq_some_iff.mp hmin).2 _ hmem

/-- Different locations of a path have different keys. -/
theorem eq_of_memoryKey (hp : p.WellFormed) {l m : Location} (hl : l ∈ p.memory)
    (hm : m ∈ p.memory) (h : p.memoryKey l = p.memoryKey m) : l = m := by
  simp only [memoryKey, MemoryKey.mk.injEq] at h
  obtain ⟨hplace, hoffset, hepoch, -⟩ := h
  have hbase : l.base = m.base := by
    refine (List.idxOf_inj ?_).mp hplace
    exact mem_firsts.mpr (List.mem_map_of_mem hl)
  have haddress : l.address = m.address := by
    have hlowest := lowestAddress_le hl
    have hlowest' := lowestAddress_le hm
    rw [hbase] at hlowest hoffset
    omega
  exact hp.epochs.eq_of_epoch hl hm hbase haddress hepoch

/-! ### Names of locations -/

/-- There is one location for each name. -/
theorem map_name_namedLocations :
    p.namedLocations.map (·.name) = firsts (p.memory.map (·.name)) := by
  have hfold (ls seen : List Location) :
      (ls.foldl (fun ls l => if ls.any (·.name == l.name) then ls else ls ++ [l]) seen).map (·.name)
        = (ls.map (·.name)).foldl (fun seen x => if x ∈ seen then seen else seen ++ [x])
            (seen.map (·.name)) := by
    induction ls generalizing seen with
    | nil => rfl
    | cons l ls ih =>
        have hany : seen.any (·.name == l.name) = true ↔ l.name ∈ seen.map (·.name) := by simp
        simp only [List.foldl_cons, List.map_cons, ih, hany]
        split <;> simp
  exact hfold p.memory []

/-- The locations that have names are locations of the path. -/
theorem namedLocations_subset : p.namedLocations ⊆ p.memory := by
  have hfold (ls seen : List Location) (hseen : seen ⊆ p.memory) (hls : ls ⊆ p.memory) :
      ls.foldl (fun ls l => if ls.any (·.name == l.name) then ls else ls ++ [l]) seen
        ⊆ p.memory := by
    induction ls generalizing seen with
    | nil => exact hseen
    | cons l ls ih =>
        obtain ⟨hl, hls⟩ := List.cons_subset.mp hls
        rw [List.foldl_cons]
        refine ih _ ?_ hls
        split
        · exact hseen
        · exact List.append_subset.mpr ⟨hseen, by simpa using hl⟩
  exact hfold p.memory [] (List.nil_subset _) (List.Subset.refl _)

/-- There is one element of memory for each name. -/
theorem map_fst_memoryNames : p.memoryNames.map (·.1) = firsts (p.memory.map (·.name)) := by
  rw [← map_name_namedLocations, memoryNames, List.map_map]
  rfl

/-- No two elements have one name. -/
theorem nodup_memoryNames (p : Path) : (p.memoryNames.map (·.1)).Nodup := by
  rw [map_fst_memoryNames]
  exact nodup_firsts _

/-- No two elements of a well-formed path have one key. -/
theorem WellFormed.nodup_keys (hp : p.WellFormed) : (p.memoryNames.map (·.2)).Nodup := by
  have hnames : p.namedLocations.Nodup := by
    refine List.Nodup.of_map (·.name) ?_
    rw [map_name_namedLocations]
    exact nodup_firsts _
  rw [memoryNames, List.map_map]
  refine hnames.map_on fun l hl m hm h => ?_
  exact eq_of_memoryKey hp (namedLocations_subset hl) (namedLocations_subset hm) h

/-- The names that a path has for its symbols: those of its inputs and of its locations. -/
def symbolNames (p : Path) : List String :=
  p.inputs.map (·.name) ++ p.memoryNames.map (·.1)

/-- The symbols of a path are its inputs and its elements of memory. -/
theorem mem_symbolNames {name : String} :
    name ∈ p.symbolNames ↔ (∃ v ∈ p.inputs, v.name = name) ∨ ∃ l ∈ p.memory, l.name = name := by
  simp [symbolNames, map_fst_memoryNames, mem_firsts, -List.map_map]

/-- What is looked up in the constraints are symbols of the path. -/
theorem WellFormed.lookup_mem (hp : p.WellFormed) {c : Constraint} (hc : c ∈ p.constraints)
    {u : Term} (hu : u ∈ c.term.parts) {name : String} (hname : u.lookup? = some name) :
    name ∈ p.symbolNames := by
  have hfits := hp.terms c hc u hu
  rw [mem_symbolNames]
  unfold Term.lookup? at hname
  split at hname
  · cases hname
    exact .inl ⟨_, mem_inputs.mpr hfits, rfl⟩
  · cases hname
    obtain ⟨-, -, hmem, hlocation, -⟩ := hfits
    exact .inr ⟨_, hmem, hlocation⟩
  · cases hname
    exact .inr ⟨_, hfits.2.1, rfl⟩
  · cases hname

/-- No input is named like a location. -/
def InputsApart (p : Path) : Prop :=
  ∀ v ∈ p.inputs, ∀ l ∈ p.memory, l.name ≠ v.name

instance (p : Path) : Decidable p.InputsApart :=
  inferInstanceAs (Decidable (∀ v ∈ p.inputs, ∀ l ∈ p.memory, l.name ≠ v.name))

/-- The names are different if and only if no input is named like a location. -/
theorem WellFormed.nodup_symbolNames_iff (hp : p.WellFormed) :
    p.symbolNames.Nodup ↔ p.InputsApart := by
  rw [symbolNames, List.nodup_append]
  constructor
  · rintro ⟨-, -, hne⟩ v hv l hl heq
    refine hne v.name (List.mem_map_of_mem hv) l.name ?_ heq.symm
    rw [map_fst_memoryNames, mem_firsts]
    exact List.mem_map_of_mem hl
  · intro hapart
    refine ⟨hp.inputs_nodup, nodup_memoryNames p, fun name hinput other hother => ?_⟩
    rw [map_fst_memoryNames, mem_firsts] at hother
    obtain ⟨v, hv, rfl⟩ := List.mem_map.mp hinput
    obtain ⟨l, hl, rfl⟩ := List.mem_map.mp hother
    exact (hapart v hv l hl).symm

end Path

/-! ### Names of symbols -/

namespace Symbol

/-- If inputs can be paired, they are paired in their order. -/
theorem eq_ofInputs {vs ws : List Variable} {place : Nat} {symbols : List Symbol}
    (hlen : vs.length = ws.length) (h : pairInputs place vs ws = .ok symbols) :
    symbols = ofInputs vs ws := by
  induction vs generalizing ws place symbols with
  | nil =>
      obtain rfl : ws = [] := List.length_eq_zero_iff.mp hlen.symm
      cases h
      rfl
  | cons v vs ih =>
      obtain _ | ⟨w, ws⟩ := ws
      · simp at hlen
      rw [pairInputs] at h
      split at h
      · cases hrest : pairInputs (place + 1) vs ws with
        | error e =>
            rw [hrest] at h
            cases h
        | ok rest =>
            rw [hrest] at h
            cases h
            rw [ih (Nat.succ.inj hlen) hrest]
            rfl
      · cases h

/-- Where each symbol has a name on a side, these are all names. -/
theorem filterMap_of_map {side : Symbol → Option String} {symbols : List Symbol}
    {names : List String} (h : symbols.map side = names.map some) :
    symbols.filterMap side = names := by
  have hid : symbols.filterMap side = (symbols.map side).filterMap id := by
    rw [List.filterMap_map]
    rfl
  rw [hid, h, List.filterMap_map]
  exact List.filterMap_some

variable {as bs : List (String × MemoryKey)} {key : MemoryKey}

/-- The name of the element with a given key. -/
def nameAt? (elements : List (String × MemoryKey)) (key : MemoryKey) : Option String :=
  (elements.find? (·.2 == key)).map (·.1)

/-- The symbol for the elements with a given key. -/
def ofKey (as bs : List (String × MemoryKey)) (key : MemoryKey) : Symbol :=
  ⟨key.width, nameAt? as key, nameAt? bs key⟩

/-- The keys of elements on either side, those of the first side first. -/
def allKeys (as bs : List (String × MemoryKey)) : List MemoryKey :=
  as.map (·.2) ++ (bs.map (·.2)).filter fun key => key ∉ as.map (·.2)

/-- Where keys are different, an element is found by its key. -/
theorem nameAt?_of_mem (has : (as.map (·.2)).Nodup) {e : String × MemoryKey} (he : e ∈ as) :
    nameAt? as e.2 = some e.1 := by
  rw [nameAt?]
  cases hfind : as.find? (·.2 == e.2) with
  | none => simpa using List.find?_eq_none.mp hfind e he
  | some e' =>
      have hkey : e'.2 = e.2 := by simpa using List.find?_some hfind
      rw [List.inj_on_of_nodup_map has (List.mem_of_find?_eq_some hfind) he hkey]
      rfl

/-- There is no element with a key that none has. -/
theorem nameAt?_eq_none (h : key ∉ as.map (·.2)) : nameAt? as key = none := by
  have hnone : as.find? (·.2 == key) = none := by
    rw [List.find?_eq_none]
    intro e he hkey
    exact h (beq_iff_eq.mp hkey ▸ List.mem_map_of_mem he)
  rw [nameAt?, hnone]
  rfl

/-- One more element changes what is found only at its key. -/
theorem nameAt?_append_of_ne {e : String × MemoryKey} (h : e.2 ≠ key) :
    nameAt? (as ++ [e]) key = nameAt? as key := by
  simp [nameAt?, List.find?_append, h]

/-- A new element is found at its key. -/
theorem nameAt?_append_self {e : String × MemoryKey} (h : e.2 ∉ as.map (·.2)) :
    nameAt? (as ++ [e]) e.2 = some e.1 := by
  have hnone := nameAt?_eq_none h
  rw [nameAt?, Option.map_eq_none_iff] at hnone
  simp [nameAt?, List.find?_append, hnone]

/-- Each key is listed once. -/
theorem nodup_allKeys (has : (as.map (·.2)).Nodup) (hbs : (bs.map (·.2)).Nodup) :
    (allKeys as bs).Nodup := by
  refine has.append (hbs.filter _) fun key hkey hnew => ?_
  simpa [hkey] using (List.mem_filter.mp hnew).2

/-- The keys are those of either side. -/
theorem mem_allKeys : key ∈ allKeys as bs ↔ key ∈ as.map (·.2) ∨ key ∈ bs.map (·.2) := by
  rw [allKeys, List.mem_append, List.mem_filter]
  by_cases h : key ∈ as.map (·.2)
  · simp only [h, true_or]
  · simp only [h, not_false_eq_true, decide_true, and_true, false_or]

/-- Seen from the other side, there are the same keys. -/
theorem allKeys_perm (has : (as.map (·.2)).Nodup) (hbs : (bs.map (·.2)).Nodup) :
    (allKeys bs as).Perm (allKeys as bs) := by
  refine (List.perm_ext_iff_of_nodup (nodup_allKeys hbs has) (nodup_allKeys has hbs)).mpr ?_
  intro key
  rw [mem_allKeys, mem_allKeys, or_comm]

/-! ### Pairing by keys -/

section

variable {side : Side} {name : String} {opened : List (MemoryKey × Symbol)}

/-- No symbol was opened for a new key. -/
theorem nameKnown?_eq_none (h : key ∉ opened.map (·.1)) :
    nameKnown? side name key opened = none := by
  induction opened with
  | nil => rfl
  | cons e opened ih =>
      obtain ⟨hne, hrest⟩ := not_or.mp (mt List.mem_cons.mpr h)
      rw [nameKnown?, if_neg (Ne.symm hne), ih hrest]
      rfl

/-- The symbol of a key that has no name on a side yet is named there. -/
theorem nameKnown?_eq_some (hnodup : (opened.map (·.1)).Nodup) {s : Symbol}
    (hs : (key, s) ∈ opened) (hname : s.name side = none) :
    nameKnown? side name key opened
      = some (opened.map fun e => (e.1, if e.1 = key then e.2.named side name else e.2)) := by
  induction opened with
  | nil => cases hs
  | cons e opened ih =>
      obtain ⟨k, s'⟩ := e
      obtain ⟨hfresh, hnodup⟩ := List.nodup_cons.mp hnodup
      by_cases hk : k = key
      · subst hk
        have hrest (e) (he : e ∈ opened) : e.1 ≠ k := by
          rintro rfl
          exact hfresh (List.mem_map.mpr ⟨e, he, rfl⟩)
        obtain rfl : s = s' := by
          rcases List.mem_cons.mp hs with heq | hmem
          · exact (Prod.mk.inj heq).2
          · exact absurd rfl (hrest _ hmem)
        have hsame : opened.map (fun e => (e.1, if e.1 = k then e.2.named side name else e.2))
            = opened := by
          conv_rhs => rw [← List.map_id opened]
          exact List.map_congr_left fun e he => by rw [if_neg (hrest e he)]; rfl
        simp [nameKnown?, hname, hsame]
      · have hmem : (key, s) ∈ opened := by
          rcases List.mem_cons.mp hs with heq | hmem
          · exact absurd (Prod.mk.inj heq).1.symm hk
          · exact hmem
        rw [nameKnown?, if_neg hk, ih hnodup hmem]
        simp [hk]

end

/-- A symbol for each of some keys, the latest first. -/
def table (keys : List MemoryKey) (symbolAt : MemoryKey → Symbol) : List (MemoryKey × Symbol) :=
  (keys.map fun key => (key, symbolAt key)).reverse

/-- A table has the keys it was made for. -/
theorem map_fst_table (keys : List MemoryKey) (symbolAt : MemoryKey → Symbol) :
    (table keys symbolAt).map (·.1) = keys.reverse := by
  simp [table, Function.comp_def]

section

variable {side : Side} {keys : List MemoryKey} {f g : MemoryKey → Symbol} {e : String × MemoryKey}

/-- A new key opens a symbol. -/
theorem nameKey_table_new (he : e.2 ∉ keys) (hf : ∀ key ∈ keys, g key = f key)
    (hg : g e.2 = Symbol.named ⟨e.2.width, none, none⟩ side e.1) :
    nameKey side (table keys f) e = table (keys ++ [e.2]) g := by
  have hfresh : e.2 ∉ (table keys f).map (·.1) := by
    rwa [map_fst_table, List.mem_reverse]
  have hsame : keys.map (fun key => (key, g key)) = keys.map fun key => (key, f key) :=
    List.map_congr_left fun key hkey => by rw [hf key hkey]
  rw [nameKey, nameKnown?_eq_none hfresh, Option.getD_none, table, table, List.map_append, hsame,
    List.map_singleton, hg, List.reverse_concat]

/-- A key whose symbol has no name on a side yet opens none. -/
theorem nameKey_table_known (hkeys : keys.Nodup) (he : e.2 ∈ keys)
    (hname : (f e.2).name side = none) (hf : ∀ key ∈ keys, key ≠ e.2 → g key = f key)
    (hg : g e.2 = (f e.2).named side e.1) : nameKey side (table keys f) e = table keys g := by
  have hnodup : ((table keys f).map (·.1)).Nodup := by
    rwa [map_fst_table, List.nodup_reverse]
  have hmem : (e.2, f e.2) ∈ table keys f :=
    List.mem_reverse.mpr (List.mem_map.mpr ⟨e.2, he, rfl⟩)
  rw [nameKey, nameKnown?_eq_some hnodup hmem hname, Option.getD_some, table, table,
    List.map_reverse, List.map_map]
  refine congrArg List.reverse (List.map_congr_left fun key hkey => ?_)
  by_cases hsame : key = e.2
  · simp [hsame, hg]
  · simp [hsame, hf key hkey hsame]

end

/-- Elements of the first side open a symbol each. -/
theorem foldl_nameKey_a (has : (as.map (·.2)).Nodup) :
    as.foldl (nameKey .a) [] = table (as.map (·.2)) (ofKey as []) := by
  induction as using List.reverseRecOn with
  | nil => rfl
  | append_singleton as e ih =>
      rw [List.map_append, List.nodup_append] at has
      obtain ⟨hkeys, -, hne⟩ := has
      have hnew : e.2 ∉ as.map (·.2) := fun hmem => hne e.2 hmem e.2 (by simp) rfl
      rw [List.foldl_append, ih hkeys, List.foldl_cons, List.foldl_nil, List.map_append]
      refine nameKey_table_new hnew ?_ ?_
      · intro key hkey
        rw [ofKey, nameAt?_append_of_ne fun h => hnew (h ▸ hkey), ofKey]
      · rw [ofKey, nameAt?_append_self hnew]
        rfl

/-- Elements of the other side are found by their keys, or open a symbol. -/
theorem foldl_nameKey_b (has : (as.map (·.2)).Nodup) (hbs : (bs.map (·.2)).Nodup) :
    bs.foldl (nameKey .b) (table (as.map (·.2)) (ofKey as []))
      = table (allKeys as bs) (ofKey as bs) := by
  induction bs using List.reverseRecOn with
  | nil => rw [allKeys, List.map_nil, List.filter_nil, List.append_nil, List.foldl_nil]
  | append_singleton bs e ih =>
      rw [List.map_append, List.nodup_append] at hbs
      obtain ⟨hkeys, -, hne⟩ := hbs
      have hnew : e.2 ∉ bs.map (·.2) := fun hmem => hne e.2 hmem e.2 (by simp) rfl
      have hself : ofKey as (bs ++ [e]) e.2 = ⟨e.2.width, nameAt? as e.2, some e.1⟩ := by
        rw [ofKey, nameAt?_append_self hnew]
      have hother (key) (h : key ≠ e.2) : ofKey as (bs ++ [e]) key = ofKey as bs key := by
        rw [ofKey, nameAt?_append_of_ne h.symm, ofKey]
      rw [List.foldl_append, ih hkeys, List.foldl_cons, List.foldl_nil]
      by_cases hknown : e.2 ∈ as.map (·.2)
      · have hall : allKeys as (bs ++ [e]) = allKeys as bs := by
          simp [allKeys, hknown]
        rw [hall]
        refine nameKey_table_known (nodup_allKeys has hkeys) (mem_allKeys.mpr (.inl hknown)) ?_
          (fun key _ => hother key) ?_
        · exact nameAt?_eq_none hnew
        · rw [hself]
          rfl
      · have hall : allKeys as (bs ++ [e]) = allKeys as bs ++ [e.2] := by
          simp [allKeys, hknown]
        have hfresh : e.2 ∉ allKeys as bs := fun h => (mem_allKeys.mp h).elim hknown hnew
        rw [hall]
        refine nameKey_table_new hfresh ?_ ?_
        · intro key hkey
          exact hother key fun h => hfresh (h ▸ hkey)
        · rw [hself, nameAt?_eq_none hknown]
          rfl

/-- Where no key comes up a second time on a side, none opens a second symbol: there is one symbol
for each key. -/
theorem pairMemory_eq (has : (as.map (·.2)).Nodup) (hbs : (bs.map (·.2)).Nodup) :
    pairMemory as bs = (allKeys as bs).map (ofKey as bs) := by
  rw [pairMemory, foldl_nameKey_a has, foldl_nameKey_b has hbs, table, List.map_reverse,
    List.reverse_reverse, List.map_map]
  rfl

/-- A key that comes up a second time opens a second symbol. -/
example : pairMemory [("m", ⟨0, 0, 0, 8⟩), ("n", ⟨0, 0, 0, 8⟩)] [("p", ⟨0, 0, 0, 8⟩)]
    = [⟨8, some "m", none⟩, ⟨8, some "n", some "p"⟩] := by decide

/-- The names at all keys are those of the side. -/
theorem filterMap_nameAt?_allKeys (bs : List (String × MemoryKey))
    (has : (as.map (·.2)).Nodup) :
    (allKeys as bs).filterMap (nameAt? as) = as.map (·.1) := by
  have hfound : as.filterMap (fun e => nameAt? as e.2) = as.map (·.1) := by
    rw [← List.filterMap_eq_map]
    exact List.filterMap_congr fun e he => nameAt?_of_mem has he
  have hothers : ((bs.map (·.2)).filter fun key => key ∉ as.map (·.2)).filterMap (nameAt? as)
      = [] := by
    refine List.filterMap_eq_nil_iff.mpr fun key hkey => nameAt?_eq_none ?_
    simpa using (List.mem_filter.mp hkey).2
  rw [allKeys, List.filterMap_append, List.filterMap_map, hothers, List.append_nil]
  exact hfound

/-- On the first side, the symbols for memory have the names of its elements. -/
theorem filterMap_a_pairMemory (has : (as.map (·.2)).Nodup) (hbs : (bs.map (·.2)).Nodup) :
    (pairMemory as bs).filterMap (·.a) = as.map (·.1) := by
  rw [pairMemory_eq has hbs, List.filterMap_map]
  exact filterMap_nameAt?_allKeys bs has

/-- On the other side, they have the names of its elements, too, in the order of the keys. -/
theorem filterMap_b_pairMemory (has : (as.map (·.2)).Nodup) (hbs : (bs.map (·.2)).Nodup) :
    ((pairMemory as bs).filterMap (·.b)).Perm (bs.map (·.1)) := by
  rw [pairMemory_eq has hbs, List.filterMap_map, ← filterMap_nameAt?_allKeys as hbs]
  exact ((allKeys_perm has hbs).filterMap _).symm

/-- On each side, the symbols are those of the path. -/
theorem names_of_pair {a b : Path} (ha : a.WellFormed) (hb : b.WellFormed) {symbols : List Symbol}
    (h : pair a b = .ok symbols) :
    (symbols.filterMap (·.a)).Perm a.symbolNames ∧
      (symbols.filterMap (·.b)).Perm b.symbolNames := by
  rw [pair] at h
  split at h
  · cases h
  · rename_i hlen
    have hlen : a.inputs.length = b.inputs.length := not_not.mp hlen
    cases hinputs : pairInputs 0 a.inputs b.inputs with
    | error e =>
        rw [hinputs] at h
        cases h
    | ok inputs =>
        rw [hinputs] at h
        cases h
        obtain ⟨hnamesA, hnamesB⟩ := map_names_ofInputs hlen
        rw [eq_ofInputs hlen hinputs, List.filterMap_append, List.filterMap_append,
          filterMap_of_map hnamesA, filterMap_of_map hnamesB,
          filterMap_a_pairMemory ha.nodup_keys hb.nodup_keys]
        exact ⟨.refl _, (filterMap_b_pairMemory ha.nodup_keys hb.nodup_keys).append_left _⟩

end Symbol

/-! ### Samples -/

namespace Sampling

/-- Each sample chooses for all symbols. -/
theorem length_of_mem_choices {rng : Generator} {a b : Profile} {symbols : List Symbol}
    {choice : List Nat} {limit : Nat}
    (h : choice ∈ choices rng ((Symbol.candidates a b symbols).map List.length) limit) :
    choice.length = symbols.length := by
  rw [(forall₂_of_mem_choices (Symbol.length_candidates_pos _ _ _) h).length_eq]
  simp [Symbol.candidates]

section

variable {side : Symbol → Option String} {symbols : List Symbol} {candidates : List (List Nat)}
  {choice : List Nat} (hcandidates : candidates.length = symbols.length)
  (hchoice : choice.length = symbols.length)

include hcandidates hchoice

/-- A sample has a number for each name of a side. -/
theorem map_fst_bindings :
    (bindings side symbols candidates choice).map (·.1) = (symbols.filterMap side).reverse := by
  have hlen : symbols.length = (candidates.zip choice).length := by
    simp [hcandidates, hchoice]
  have hfst : symbols = (symbols.zip (candidates.zip choice)).map (·.1) :=
    (List.map_fst_zip hlen.le).symm
  rw [bindings, List.map_reverse, List.map_filterMap]
  conv_rhs => rw [hfst, List.filterMap_map]
  simp [Function.comp_def]

/-- Each name of a symbol is assigned a number. -/
theorem exists_assignment {name : String} (hname : name ∈ symbols.filterMap side) :
    ∃ n, assignment (bindings side symbols candidates choice) name = some n := by
  have hmem : name ∈ (bindings side symbols candidates choice).map (·.1) := by
    rw [map_fst_bindings hcandidates hchoice]
    exact List.mem_reverse.mpr hname
  obtain ⟨⟨_, n⟩, hn, rfl⟩ := List.mem_map.mp hmem
  rw [assignment, ← Option.isSome_iff_exists, List.lookup_isSome_iff]
  exact ⟨_, hn, beq_self_eq_true _⟩

/-- The symbol at a place gives its name the number that the sample has there. -/
theorem assignment_of_place (hnodup : (symbols.filterMap side).Nodup) {i : Nat} {s : Symbol}
    (hs : symbols[i]? = some s) {name : String} (hname : side s = some name) {n : Nat}
    (hn : (sample candidates choice)[i]? = some n) :
    assignment (bindings side symbols candidates choice) name = some n := by
  refine lookup_eq_some_of_mem ?_ ?_
  · rw [map_fst_bindings hcandidates hchoice]
    exact List.nodup_reverse.mpr hnodup
  · obtain ⟨values, j, hvalues, hj, rfl⟩ := List.getElem?_zipWith_eq_some.mp hn
    rw [bindings, List.mem_reverse, List.mem_filterMap]
    refine ⟨(s, values, j), List.mem_of_getElem? (i := i) ?_, by simp [hname]⟩
    rw [List.getElem?_zip_eq_some, List.getElem?_zip_eq_some]
    exact ⟨hs, hvalues, hj⟩

end

end Sampling

end Pathwise
