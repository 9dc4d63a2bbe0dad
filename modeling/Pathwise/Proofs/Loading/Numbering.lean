import Mathlib.Data.List.Nodup
import Mathlib.Data.Prod.Lex
import Mathlib.Data.String.Basic
import Mathlib.Order.Bounds.Defs
import Pathwise.Loading
import Pathwise.Proofs.Sorting

/-!
# Loading, in whatever order files are listed

Files are sorted before they are read, so a program does not depend on how its files were listed.
Paths that give themselves an index can collide with each other, and with the numbers that the
others get.

* **Order of reading** (`Loading.readBefore_iff`, `Loading.sorted_eq_of_perm`): files are ordered by
  the index in their name and then by name, and no two names stand in one place.
* **Free numbers** (`Loading.isLeast_nextFree`): the search ends at the least positive number that
  is not taken, since there are no more steps to make than numbers taken.
* **Numbering** (`Loading.Numbering`, `Loading.numbering_numbered`): which path gets which number,
  said without the search. No number is given twice (`Loading.Numbering.nodup`).
* **Programs** (`Loading.Loads`, `Loading.loads_loadFiles`): what a set of paths has to do with the
  files that it was loaded from.

So listing the same files in another order gives the same program (`Loading.load_of_perm`).
-/

namespace Pathwise.Loading

/-! ### The order of reading -/

/-- What files are sorted by. -/
def readingKey (file : String) : Int ×ₗ String :=
  toLex (fileIndex file, file)

/-- A file is known by its sort key. -/
theorem readingKey_injective : Function.Injective readingKey := by
  intro a b h
  exact congrArg Prod.snd (toLex.injective h)

/-- The order of reading is that of the keys. -/
theorem readBefore_iff (a b : String) : readBefore a b = true ↔ readingKey a ≤ readingKey b := by
  unfold readBefore readingKey
  rw [Prod.Lex.toLex_le_toLex]
  by_cases h : fileIndex a = fileIndex b
  · simp [h]
  · simp [h]

/-- The order of reading does not depend on the order in which files are found. -/
theorem sorted_eq_of_perm {files files' : List String} (h : files'.Perm files) :
    sorted files' = sorted files :=
  mergeSort_eq_of_perm_of_key readBefore_iff readingKey_injective h

/-! ### Free numbers -/

/-- A taken number is not among those that are left behind it. -/
theorem length_filter_succ_lt {taken : List Int} {n : Nat} (hn : (n : Int) ∈ taken) :
    (taken.filter fun k => ((n + 1 : Nat) : Int) ≤ k).length <
      (taken.filter fun k => (n : Int) ≤ k).length := by
  have hsub : (taken.filter fun k => ((n + 1 : Nat) : Int) ≤ k) =
      (taken.filter fun k => (n : Int) ≤ k).filter fun k => ((n + 1 : Nat) : Int) ≤ k := by
    rw [List.filter_filter]
    refine List.filter_congr fun k _ => ?_
    rw [← Bool.decide_and]
    exact decide_eq_decide.mpr (by omega)
  rw [hsub, List.length_filter_lt_length_iff_exists]
  refine ⟨n, List.mem_filter.mpr ⟨hn, by simp⟩, ?_⟩
  rw [decide_eq_true_iff]
  omega

/-- The search stops at the first number that is not taken, if there is fuel for all taken numbers
that lie ahead. -/
theorem nextFree_spec {taken : List Int} {fuel n : Nat}
    (hfuel : (taken.filter fun k => (n : Int) ≤ k).length ≤ fuel) :
    n ≤ nextFree taken fuel n ∧ (nextFree taken fuel n : Int) ∉ taken ∧
      ∀ k, n ≤ k → k < nextFree taken fuel n → (k : Int) ∈ taken := by
  induction fuel generalizing n with
  | zero =>
      have hnone := List.length_eq_zero_iff.mp (Nat.le_zero.mp hfuel)
      have hfree : (n : Int) ∉ taken := by
        intro hn
        simpa using List.filter_eq_nil_iff.mp hnone _ hn
      exact ⟨le_refl n, hfree, fun k hk hlt => absurd hlt (Nat.not_lt.mpr hk)⟩
  | succ fuel ih =>
      unfold nextFree
      by_cases hn : (n : Int) ∈ taken
      · rw [if_pos hn]
        have hless := length_filter_succ_lt hn
        obtain ⟨hle, hfree, htaken⟩ := ih (n := n + 1) (by omega)
        refine ⟨by omega, hfree, ?_⟩
        intro k hk hlt
        rcases Nat.eq_or_lt_of_le hk with rfl | hk
        · exact hn
        · exact htaken k hk hlt
      · rw [if_neg hn]
        exact ⟨le_refl n, hn, fun k hk hlt => absurd hlt (Nat.not_lt.mpr hk)⟩

/-- The next free number is the least positive one that is not taken. -/
theorem isLeast_nextFree (taken : List Int) :
    IsLeast {k : Int | 0 < k ∧ k ∉ taken} (nextFree taken taken.length 1 : Nat) := by
  obtain ⟨hpos, hfree, htaken⟩ := nextFree_spec (n := 1) (List.length_filter_le _ taken)
  refine ⟨⟨by omega, hfree⟩, ?_⟩
  rintro k ⟨hk, hnot⟩
  by_contra hlt
  refine hnot ?_
  have hmem := htaken k.toNat (by omega) (by omega)
  rwa [Int.toNat_of_nonneg (by omega)] at hmem

/-! ### Numbering -/

/-- The numbers that paths are given, in the order in which they were read. A path keeps the index
that it has, unless that is negative or a path before has it. The others get the least positive
number that no path has and that was not given before. -/
structure Numbering (own given : List Int) : Prop where
  length : given.length = own.length
  keeps : ∀ i m n, own[i]? = some m → given[i]? = some n → (n = m ↔ 0 ≤ m ∧ m ∉ own.take i)
  least : ∀ i m n, own[i]? = some m → given[i]? = some n → n ≠ m →
    IsLeast {k | 0 < k ∧ k ∉ own ∧ k ∉ given.take i} n

namespace Numbering

variable {own given : List Int}

/-- Each number that is given belongs to a path. -/
theorem exists_own (h : Numbering own given) {i : Nat} {n : Int} (hn : given[i]? = some n) :
    ∃ m, own[i]? = some m := by
  obtain ⟨hi, -⟩ := List.getElem?_eq_some_iff.mp hn
  rw [h.length] at hi
  exact ⟨own[i], List.getElem?_eq_getElem hi⟩

/-- No number that is given is negative. -/
theorem nonneg (h : Numbering own given) {n : Int} (hn : n ∈ given) : 0 ≤ n := by
  obtain ⟨i, hi⟩ := List.mem_iff_getElem?.mp hn
  obtain ⟨m, hm⟩ := h.exists_own hi
  by_cases heq : n = m
  · rw [heq]
    exact ((h.keeps i m n hm hi).mp heq).1
  · exact le_of_lt (h.least i m n hm hi heq).1.1

/-- No number is given twice: those that are kept differ, and no path gets one that another has. -/
theorem nodup (h : Numbering own given) : given.Nodup := by
  have htake {l : List Int} {i j : Nat} {k : Int} (hij : i < j) (hk : l[i]? = some k) :
      k ∈ l.take j := by
    refine List.mem_iff_getElem?.mpr ⟨i, ?_⟩
    rw [List.getElem?_take_of_lt hij, hk]
  rw [List.nodup_iff_getElem?_ne_getElem?]
  intro i j hij hj heq
  obtain ⟨n, hn⟩ : ∃ n, given[j]? = some n := ⟨given[j], List.getElem?_eq_getElem hj⟩
  rw [hn] at heq
  obtain ⟨m, hm⟩ := h.exists_own hn
  obtain ⟨l, hl⟩ := h.exists_own heq
  by_cases hkeeps : n = m
  · obtain ⟨-, hnew⟩ := (h.keeps j m n hm hn).mp hkeeps
    by_cases hkeeps' : n = l
    · exact hnew (htake hij (by rw [← hkeeps, hkeeps', hl]))
    · refine (h.least i l n hl heq hkeeps').1.2.1 ?_
      rw [hkeeps]
      exact List.mem_of_getElem? hm
  · exact (h.least j m n hm hn hkeeps).1.2.2 (htake hij heq)

end Numbering

/-! ### Keeping and filling -/

/-- The indices that paths have before they are numbered. -/
abbrev indices (ps : List Profile) : List Int :=
  ps.map (·.path.index)

/-- Marking whose numbers are kept changes no path. -/
theorem map_fst_kept (taken : List Int) (ps : List Profile) : (kept taken ps).map (·.1) = ps := by
  induction ps generalizing taken with
  | nil => rfl
  | cons p ps ih =>
      unfold kept
      split
      · rw [List.map_cons, ih]
      · rw [List.map_cons, ih]

/-- A path is marked just if its index is not negative, not taken, and that of no path before. -/
theorem kept_iff {taken : List Int} {ps : List Profile} {i : Nat} {m : Profile × Bool}
    (hm : (kept taken ps)[i]? = some m) :
    m.2 = true ↔
      0 ≤ m.1.path.index ∧ m.1.path.index ∉ taken ∧ m.1.path.index ∉ (indices ps).take i := by
  induction ps generalizing taken i with
  | nil => cases hm
  | cons p ps ih =>
      unfold kept at hm
      by_cases hp : p.path.index < 0 ∨ p.path.index ∈ taken
      · rw [if_pos (by simpa using hp)] at hm
        rcases i with _ | i
        · obtain rfl := Option.some.inj hm
          simp only [Bool.false_eq_true, false_iff]
          rintro ⟨hnonneg, hnot, -⟩
          exact hp.elim (not_lt.mpr hnonneg) hnot
        · -- what is not negative and not taken is not the index of the first path
          rw [ih hm]
          simp only [indices, List.map_cons, List.take_succ_cons, List.mem_cons, not_or]
          grind
      · rw [if_neg (by simpa using hp)] at hm
        rw [not_or, not_lt] at hp
        rcases i with _ | i
        · obtain rfl := Option.some.inj hm
          simp [hp.1, hp.2]
        · rw [ih hm]
          simp only [indices, List.map_cons, List.take_succ_cons, List.mem_cons, not_or]
          tauto

/-- The numbers that are taken before any are given. -/
theorem mem_taken_iff {taken : List Int} {ps : List Profile} {k : Int} :
    k ∈ ((kept taken ps).filter (·.2)).map (·.1.path.index) ↔
      0 ≤ k ∧ k ∉ taken ∧ k ∈ indices ps := by
  induction ps generalizing taken with
  | nil => simp [kept]
  | cons p ps ih =>
      unfold kept
      by_cases hp : p.path.index < 0 ∨ p.path.index ∈ taken
      · rw [if_pos (by simpa using hp), List.filter_cons_of_neg (by simp), ih]
        simp only [indices, List.map_cons, List.mem_cons]
        grind
      · rw [if_neg (by simpa using hp), List.filter_cons_of_pos rfl, List.map_cons, List.mem_cons,
          ih]
        simp only [indices, List.map_cons, List.mem_cons]
        grind

/-- Filling in numbers changes nothing else about the paths. -/
theorem fill_eq (taken : List Int) (ms : List (Profile × Bool)) :
    fill taken ms = List.zipWith withIndex (ms.map (·.1)) (indices (fill taken ms)) := by
  induction ms generalizing taken with
  | nil => rfl
  | cons m ms ih =>
      obtain ⟨p, b⟩ := m
      cases b with
      | true => exact congrArg (p :: ·) (ih taken)
      | false => exact congrArg (withIndex p _ :: ·) (ih _)

/-- Filling in numbers keeps all paths. -/
theorem length_fill (taken : List Int) (ms : List (Profile × Bool)) :
    (fill taken ms).length = ms.length := by
  induction ms generalizing taken with
  | nil => rfl
  | cons m ms ih =>
      obtain ⟨p, b⟩ := m
      cases b with
      | true => exact congrArg (· + 1) (ih taken)
      | false => exact congrArg (· + 1) (ih _)

/-- One number is given after the other, each the least that is neither taken nor given before. The
numbers of marked paths have to be taken from the beginning. -/
theorem fill_spec {taken : List Int} {ms : List (Profile × Bool)}
    (htaken : ∀ m ∈ ms, m.2 = true → m.1.path.index ∈ taken) {i : Nat} {m : Profile × Bool}
    {n : Int} (hm : ms[i]? = some m) (hn : (indices (fill taken ms))[i]? = some n) :
    (m.2 = true → n = m.1.path.index) ∧
      (m.2 = false → IsLeast {k | 0 < k ∧ k ∉ taken ∧ k ∉ (indices (fill taken ms)).take i} n) := by
  induction ms generalizing taken i with
  | nil => cases hm
  | cons x ms ih =>
      obtain ⟨p, b⟩ := x
      obtain ⟨hx, hrest⟩ := List.forall_mem_cons.mp htaken
      cases b with
      | true =>
          rcases i with _ | i
          · obtain rfl := Option.some.inj hm
            obtain rfl := Option.some.inj hn
            exact ⟨fun _ => rfl, fun h => Bool.noConfusion h⟩
          · refine (ih hrest hm hn).imp_right fun hleast hfalse => ?_
            convert hleast hfalse using 1
            ext k
            have hne : k ∉ taken → k ≠ p.path.index := fun hk heq => hk (heq ▸ hx rfl)
            simp only [indices, fill, List.map_cons, List.take_succ_cons, List.mem_cons, not_or,
              Set.mem_ofPred_eq]
            tauto
      | false =>
          rcases i with _ | i
          · obtain rfl := Option.some.inj hm
            obtain rfl := Option.some.inj hn
            refine ⟨fun h => Bool.noConfusion h, fun _ => ?_⟩
            simpa [withIndex] using isLeast_nextFree taken
          · have hgiven : ∀ y ∈ ms, y.2 = true →
                y.1.path.index ∈ (nextFree taken taken.length 1 : Int) :: taken :=
              fun y hy hmark => List.mem_cons_of_mem _ (hrest y hy hmark)
            refine (ih hgiven hm hn).imp_right fun hleast hfalse => ?_
            convert hleast hfalse using 1
            ext k
            simp only [indices, fill, withIndex, List.map_cons, List.take_succ_cons, List.mem_cons,
              not_or, Set.mem_ofPred_eq]
            tauto

/-- The paths with their numbers, in the order in which they were read. -/
def numbered (ps : List Profile) : List Profile :=
  fill (((kept [] ps).filter (·.2)).map (·.1.path.index)) (kept [] ps)

/-- Numbering changes nothing but the numbers. -/
theorem numbered_eq (ps : List Profile) :
    numbered ps = List.zipWith withIndex ps (indices (numbered ps)) := by
  have hfill := fill_eq (((kept [] ps).filter (·.2)).map (·.1.path.index)) (kept [] ps)
  rwa [map_fst_kept] at hfill

/-- Numbering keeps all paths. -/
theorem length_numbered (ps : List Profile) : (numbered ps).length = ps.length := by
  unfold numbered
  rw [length_fill, ← List.length_map (·.1), map_fst_kept]

/-- The numbers that are given are what they should be. -/
theorem numbering_numbered (ps : List Profile) :
    Numbering (indices ps) (indices (numbered ps)) := by
  have hown : indices ps = (kept [] ps).map (·.1.path.index) := by
    conv_lhs => rw [← map_fst_kept [] ps]
    rw [indices, List.map_map]
    rfl
  have htaken : ∀ x ∈ kept [] ps, x.2 = true →
      x.1.path.index ∈ ((kept [] ps).filter (·.2)).map (·.1.path.index) :=
    fun x hx hmark => List.mem_map.mpr ⟨x, List.mem_filter.mpr ⟨hx, hmark⟩, rfl⟩
  -- a positive number is taken from the beginning if some path has it
  have hpositive {k : Int} (hk : 0 < k) :
      k ∈ ((kept [] ps).filter (·.2)).map (·.1.path.index) ↔ k ∈ indices ps := by
    rw [mem_taken_iff]
    exact ⟨fun h => h.2.2, fun h => ⟨le_of_lt hk, List.not_mem_nil, h⟩⟩
  have hmarked {i : Nat} {m : Int} (hm : (indices ps)[i]? = some m) :
      ∃ x, (kept [] ps)[i]? = some x ∧ x.1.path.index = m := by
    rw [hown, List.getElem?_map] at hm
    exact Option.map_eq_some_iff.mp hm
  refine ⟨?_, ?_, ?_⟩
  · rw [List.length_map, List.length_map, length_numbered]
  · intro i m n hm hn
    obtain ⟨x, hx, rfl⟩ := hmarked hm
    obtain ⟨hkeep, hfill⟩ := fill_spec htaken hx hn
    have hmark := kept_iff hx
    rw [and_iff_right List.not_mem_nil] at hmark
    rw [← hmark]
    refine ⟨fun heq => ?_, hkeep⟩
    by_contra hfalse
    obtain ⟨⟨hpos, hfree, -⟩, -⟩ := hfill (Bool.eq_false_iff.mpr hfalse)
    refine hfree ((hpositive hpos).mpr ?_)
    rw [heq]
    exact List.mem_of_getElem? hm
  · intro i m n hm hn hne
    obtain ⟨x, hx, rfl⟩ := hmarked hm
    obtain ⟨hkeep, hfill⟩ := fill_spec htaken hx hn
    convert hfill (Bool.eq_false_iff.mpr fun hmark => hne (hkeep hmark)) using 1
    ext k
    simp only [Set.mem_ofPred_eq]
    refine and_congr_right fun hk => ?_
    rw [hpositive hk]
    rfl

/-! ### Programs -/

/-- What the files come to, in the order in which they are read. -/
def results (t : FileTree) (files : List String) : List (Except Path.Refusal Path) :=
  (sorted files).map (Path.ofFile t)

/-- A set of paths was loaded from files. They are read in the order of the index in their name, and
then of the name, and each is refused or becomes a path that is numbered. The paths are sorted by
their numbers. -/
structure Loads (t : FileTree) (files : List String) (set : PathSet) : Prop where
  order : (sorted files).Perm files ∧
    (sorted files).Pairwise fun a b =>
      fileIndex a < fileIndex b ∨ fileIndex a = fileIndex b ∧ a ≤ b
  count : set.files = files.length
  complete : set.paths.length + set.errors.length = set.files
  errors : set.errors.map .error = (results t files).filter (!·.isOk)
  paths : ∃ parsed given, parsed.map .ok = (results t files).filter (·.isOk) ∧
    Numbering (parsed.map (·.index)) given ∧
    set.paths.Perm (List.zipWith (fun p n => withIndex (.ofPath p) n) parsed given)
  increasing : set.paths.Pairwise fun p q => p.path.index < q.path.index
  nonneg : ∀ p ∈ set.paths, 0 ≤ p.path.index

/-- Each file is read once. -/
theorem sorted_perm (files : List String) : (sorted files).Perm files :=
  List.mergeSort_perm _ _

/-- Files are read by the index in their names, and then by name. -/
theorem pairwise_sorted (files : List String) :
    (sorted files).Pairwise fun a b =>
      fileIndex a < fileIndex b ∨ fileIndex a = fileIndex b ∧ a ≤ b := by
  refine (pairwise_mergeSort_of_key readBefore_iff files).imp ?_
  intro a b hab
  unfold readingKey at hab
  rwa [Prod.Lex.toLex_le_toLex] at hab

/-- Sorting by number keeps the numbered paths. -/
theorem indexed_perm (ps : List Profile) : (indexed ps).Perm (numbered ps) :=
  List.mergeSort_perm _ _

/-- The paths of a program have ascending numbers. -/
theorem pairwise_indexed (ps : List Profile) :
    (indexed ps).Pairwise fun p q => p.path.index < q.path.index := by
  have hle : (indexed ps).Pairwise fun p q => p.path.index ≤ q.path.index :=
    pairwise_mergeSort_of_key (fun _ _ => decide_eq_true_iff) _
  have hnodup : (indices (indexed ps)).Nodup :=
    ((indexed_perm ps).map _).nodup_iff.mpr (numbering_numbered ps).nodup
  have hne : (indexed ps).Pairwise fun p q => p.path.index ≠ q.path.index :=
    List.pairwise_map.mp hnodup
  refine (hle.and hne).imp ?_
  rintro p q ⟨hle, hne⟩
  exact lt_of_le_of_ne hle hne

/-- The results that are kept are those that are no errors. -/
theorem map_ok_filterMap {ε α : Type} (rs : List (Except ε α)) :
    (rs.filterMap Except.toOption).map .ok = rs.filter (·.isOk) := by
  induction rs with
  | nil => rfl
  | cons r rs ih =>
      cases r with
      | ok a => exact congrArg (Except.ok a :: ·) ih
      | error e => exact ih

/-- The reported errors are the results that are errors. -/
theorem map_error_errors (t : FileTree) (program : String) (files : List String) :
    (loadFiles t program files).errors.map .error = (results t files).filter (!·.isOk) := by
  unfold loadFiles results
  simp only
  induction (sorted files).map (Path.ofFile t) with
  | nil => rfl
  | cons r rs ih =>
      cases r with
      | ok p => exact ih
      | error e => exact congrArg (Except.error e :: ·) ih

/-- The paths of a program are those that could be read, numbered. -/
theorem paths_loadFiles (t : FileTree) (program : String) (files : List String) :
    (loadFiles t program files).paths =
      indexed (((results t files).filterMap Except.toOption).map .ofPath) :=
  rfl

/-- Loading some files does what it should. -/
theorem loads_loadFiles (t : FileTree) (program : String) (files : List String) :
    Loads t files (loadFiles t program files) := by
  let parsed := (results t files).filterMap Except.toOption
  have hpaths : (loadFiles t program files).paths = indexed (parsed.map .ofPath) :=
    paths_loadFiles t program files
  have hcount : (loadFiles t program files).files = files.length :=
    (sorted_perm files).length_eq
  have hok : parsed.map .ok = (results t files).filter (·.isOk) := map_ok_filterMap _
  have herror := map_error_errors t program files
  have hperm := indexed_perm (parsed.map .ofPath)
  have hnumbering := numbering_numbered (parsed.map .ofPath)
  refine ⟨⟨sorted_perm files, pairwise_sorted files⟩, hcount, ?_, herror, ?_, ?_, ?_⟩
  · -- what was read is either fine or refused
    have hsplit := List.length_eq_length_filter_add (l := results t files) (·.isOk)
    have hlength : (results t files).length = files.length := by
      rw [results, List.length_map, (sorted_perm files).length_eq]
    rw [← hok, ← herror, List.length_map, List.length_map] at hsplit
    rw [hcount, hpaths, hperm.length_eq, length_numbered, List.length_map]
    omega
  · refine ⟨parsed, indices (numbered (parsed.map .ofPath)), hok, ?_, ?_⟩
    · rw [indices, List.map_map] at hnumbering
      exact hnumbering
    · rw [hpaths]
      refine hperm.trans (.of_eq ?_)
      conv_lhs => rw [numbered_eq]
      rw [List.zipWith_map_left]
  · rw [hpaths]
    exact pairwise_indexed _
  · rw [hpaths]
    intro p hp
    exact hnumbering.nonneg (List.mem_map.mpr ⟨p, hperm.mem_iff.mp hp, rfl⟩)

/-- **Loading does not depend on how files are listed, and loses nothing.** Each file comes to one
path or to one error. The paths are sorted by numbers that are not negative and differ. With the
files in the order in which they are read, a path keeps its index unless that is negative or a path
before has it, and the others get the least positive numbers that are free, one after the other. -/
theorem load_of_perm (t : FileTree) (program : String) {files files' : List String}
    (h : files'.Perm files) :
    load t .live program files' = load t .live program files ∧
      ∃ set, (load t .live program files).1 = some set ∧ set.program = program ∧
        Loads t files set := by
  have hfiles : loadFiles t program files' = loadFiles t program files := by
    unfold loadFiles
    rw [sorted_eq_of_perm h]
  refine ⟨?_, loadFiles t program files, rfl, rfl, loads_loadFiles t program files⟩
  show (some (loadFiles t program files'), _) = (some (loadFiles t program files), _)
  rw [hfiles]

/-- A file that is no path, a path without an index, and two paths with the same one. -/
theorem load_of_perm_collision :
    let t : FileTree := ⟨[(["b"], .file ""), (["bad"], .file ")"), (["a_path_1"], .file ""),
      (["c_path_1"], .file "")]⟩
    let files := ["b", "bad", "a_path_1", "c_path_1"]
    files.reverse.Perm files ∧
      load t .live "p" files.reverse = load t .live "p" files ∧
      ∃ set, (load t .live "p" files).1 = some set ∧ Loads t files set ∧ set.errors.length = 1 ∧
        set.paths.map (fun p => (p.path.name, p.path.index)) =
          [("a_path_1", 1), ("b", 2), ("c_path_1", 3)] := by
  intro t files
  have hperm : files.reverse.Perm files := List.reverse_perm files
  obtain ⟨hsame, set, hset, -, hloads⟩ := load_of_perm t "p" hperm
  have hfiles : files.Pairwise fun x y => readBefore x y = true := by decide +kernel
  have hsorted : sorted files = files := List.mergeSort_of_pairwise hfiles
  have hpaths : set.paths = indexed (((files.map (Path.ofFile t)).filterMap Except.toOption).map
      Profile.ofPath) := by
    rw [← Option.some.inj hset, paths_loadFiles, results, hsorted]
  have hnumbers : (numbered (((files.map (Path.ofFile t)).filterMap Except.toOption).map
      Profile.ofPath)).map (fun p => (p.path.name, p.path.index)) =
        [("b", 2), ("a_path_1", 1), ("c_path_1", 3)] := by
    decide +kernel
  have hlisted : set.paths.map (fun p => (p.path.name, p.path.index)) =
      [("a_path_1", 1), ("b", 2), ("c_path_1", 3)] := by
    have hincreasing : (set.paths.map fun p => (p.path.name, p.path.index)).Pairwise
        fun x y => x.2 < y.2 :=
      List.pairwise_map.mpr hloads.increasing
    refine List.Perm.eq_of_pairwise ?_ hincreasing (by decide) ?_
    · intro x y _ _ hxy hyx
      exact absurd hxy (lt_asymm hyx)
    · rw [hpaths]
      refine ((indexed_perm _).map _).trans ?_
      rw [hnumbers]
      exact List.Perm.swap _ _ _
  have hlength : set.paths.length = 3 := by
    rw [← List.length_map, hlisted]
    rfl
  have herrors : set.errors.length = 1 := by
    have hcomplete : set.paths.length + set.errors.length = 4 := hloads.complete.trans hloads.count
    omega
  exact ⟨hperm, hsame, set, hset, hloads, herrors, hlisted⟩

end Pathwise.Loading
