import Mathlib.Data.List.Nodup
import Mathlib.Data.Set.Function
import Pathwise.Profile.Access

/-!
# Accesses, wherever memory is

The accesses of a path are described by numbers of bases and by offsets, so that names of bases and
places in memory are forgotten.

* **First members** (`mem_firsts`, `nodup_firsts`, `firsts_map`): dropping repeated members commutes
  with a map that keeps members apart.
* **Lowest addresses** (`Access.lowest_spec`): what offsets are taken from is the address of some
  access to the same base, and no address above one of them.
* **Rigid maps** (`Access.Rigid.map_key_describe`): a map of locations that keeps bases apart and
  keeps the distances within each base keeps all keys that do not ask for absolute addresses.
-/

namespace Pathwise

/-! ### First members -/

/-- Taking first members drops no member altogether. -/
theorem mem_firsts {α : Type} [DecidableEq α] {xs : List α} {x : α} : x ∈ firsts xs ↔ x ∈ xs := by
  -- the members seen so far are kept
  have hfold (xs seen : List α) :
      x ∈ xs.foldl (fun seen x => if x ∈ seen then seen else seen ++ [x]) seen ↔
        x ∈ seen ∨ x ∈ xs := by
    induction xs generalizing seen with
    | nil => simp
    | cons y xs ih =>
        rw [List.foldl_cons, ih, List.mem_cons]
        split <;> grind
  simpa [firsts] using hfold xs []

/-- Taking first members leaves each member once. -/
theorem nodup_firsts {α : Type} [DecidableEq α] (xs : List α) : (firsts xs).Nodup := by
  have hfold (xs seen : List α) (hseen : seen.Nodup) :
      (xs.foldl (fun seen x => if x ∈ seen then seen else seen ++ [x]) seen).Nodup := by
    induction xs generalizing seen with
    | nil => exact hseen
    | cons y xs ih =>
        rw [List.foldl_cons]
        refine ih _ ?_
        split
        · exact hseen
        · exact hseen.append (List.nodup_singleton _) (by simpa using by assumption)
  exact hfold xs [] List.nodup_nil

/-- A member at the end stays if it is a new one. -/
theorem firsts_concat {α : Type} [DecidableEq α] (xs : List α) (x : α) :
    firsts (xs ++ [x]) = if x ∈ xs then firsts xs else firsts xs ++ [x] := by
  have hstep : firsts (xs ++ [x]) = if x ∈ firsts xs then firsts xs else firsts xs ++ [x] := by
    rw [firsts, List.foldl_append]
    rfl
  simpa only [mem_firsts] using hstep

/-- First members come first also in a longer list. -/
theorem firsts_prefix {α : Type} [DecidableEq α] (xs ys : List α) :
    firsts xs <+: firsts (xs ++ ys) := by
  induction ys generalizing xs with
  | nil => simp
  | cons y ys ih =>
      have hstep : firsts xs <+: firsts (xs ++ [y]) := by
        rw [firsts_concat]
        split
        · exact List.prefix_refl _
        · exact List.prefix_append _ _
      have hrest := ih (xs ++ [y])
      rw [List.append_assoc, List.singleton_append] at hrest
      exact hstep.trans hrest

/-- A map that keeps the members of a list apart keeps which of them are dropped. -/
theorem firsts_map {α β : Type} [DecidableEq α] [DecidableEq β] {f : α → β} {xs : List α}
    (hf : Set.InjOn f {x | x ∈ xs}) : firsts (xs.map f) = (firsts xs).map f := by
  have hfold (ys seen : List α) (hinj : Set.InjOn f {x | x ∈ seen ++ ys}) :
      (ys.map f).foldl (fun seen x => if x ∈ seen then seen else seen ++ [x]) (seen.map f) =
        (ys.foldl (fun seen x => if x ∈ seen then seen else seen ++ [x]) seen).map f := by
    induction ys generalizing seen with
    | nil => rfl
    | cons y ys ih =>
        have hmem : f y ∈ seen.map f ↔ y ∈ seen := by
          constructor
          · intro h
            obtain ⟨x, hx, hxy⟩ := List.mem_map.mp h
            have hxy : x = y := hinj (by simp [hx]) (by simp) hxy
            exact hxy ▸ hx
          · exact List.mem_map_of_mem
        rw [List.map_cons, List.foldl_cons, List.foldl_cons]
        by_cases hy : y ∈ seen
        · rw [if_pos (hmem.mpr hy), if_pos hy]
          refine ih seen (hinj.mono ?_)
          intro x hx
          simp only [Set.mem_ofPred_eq, List.mem_append, List.mem_cons] at hx ⊢
          tauto
        · rw [if_neg (mt hmem.mp hy), if_neg hy]
          have hsnoc : seen.map f ++ [f y] = (seen ++ [y]).map f := by simp
          rw [hsnoc]
          refine ih (seen ++ [y]) (hinj.mono ?_)
          intro x hx
          simpa using hx
  exact hfold xs [] (by simpa using hf)

/-- A map that takes nothing else in a list to the same place keeps the index. -/
theorem idxOf_map {α β : Type} [DecidableEq α] [DecidableEq β] {f : α → β} {xs : List α} {x : α}
    (hf : ∀ y ∈ xs, f y = f x → y = x) : (xs.map f).idxOf (f x) = xs.idxOf x := by
  induction xs with
  | nil => rfl
  | cons y ys ih =>
      rw [List.forall_mem_cons] at hf
      have hbeq : (f y == f x) = (y == x) := by
        rw [Bool.eq_iff_iff, beq_iff_eq, beq_iff_eq]
        exact ⟨hf.1, congrArg f⟩
      rw [List.map_cons, List.idxOf_cons, List.idxOf_cons, hbeq, ih hf.2]

namespace Access

variable {touches : List Term.Touch} {t : Term.Touch}

/-! ### Lowest addresses -/

/-- Some access has the lowest address that is accessed relative to its base, and none a lower
one. -/
theorem lowest_spec (ht : t ∈ touches) :
    (∃ s ∈ touches, s.1.base = t.1.base ∧ s.1.address = lowest touches t.1.base) ∧
      ∀ s ∈ touches, s.1.base = t.1.base → lowest touches t.1.base ≤ s.1.address := by
  have hmem {s : Term.Touch} (hs : s ∈ touches) (hbase : s.1.base = t.1.base) :
      s.1.address ∈ (touches.filter (·.1.base == t.1.base)).map (·.1.address) :=
    List.mem_map_of_mem (List.mem_filter.mpr ⟨hs, by simpa using hbase⟩)
  unfold lowest
  cases hmin : ((touches.filter (·.1.base == t.1.base)).map (·.1.address)).min? with
  | none =>
      rw [List.min?_eq_none_iff] at hmin
      have hempty := hmem ht rfl
      rw [hmin] at hempty
      cases hempty
  | some n =>
      obtain ⟨hn, hle⟩ := List.min?_eq_some_iff.mp hmin
      refine ⟨?_, fun s hs hbase => hle _ (hmem hs hbase)⟩
      obtain ⟨s, hs, rfl⟩ := List.mem_map.mp hn
      obtain ⟨hs, hbase⟩ := List.mem_filter.mp hs
      exact ⟨s, hs, by simpa using hbase, rfl⟩

/-! ### Rigid maps -/

/-- A map of locations that moves the accessed memory of each base as a whole: it renames bases and
keeps them apart, leaves absolute addresses absolute, and keeps epochs and the distances within each
base. -/
structure Rigid (f : Location → Location) (name : String → String) (touches : List Term.Touch) :
    Prop where
  base : ∀ t ∈ touches, (f t.1).base = name t.1.base
  apart : ∀ s ∈ touches, ∀ t ∈ touches, name s.1.base = name t.1.base → s.1.base = t.1.base
  absolute : ∀ t ∈ touches, name t.1.base = "" ↔ t.1.base = ""
  epoch : ∀ t ∈ touches, (f t.1).epoch = t.1.epoch
  distance : ∀ s ∈ touches, ∀ t ∈ touches, s.1.base = t.1.base →
    (f s.1).address + t.1.address = (f t.1).address + s.1.address

variable {f : Location → Location} {name : String → String}

/-- The bases are the names that are accessed, absolute addresses apart. -/
theorem mem_bases {b : String} : b ∈ bases touches ↔ b ≠ "" ∧ ∃ t ∈ touches, t.1.base = b := by
  simp only [bases, mem_firsts, List.mem_filter, List.mem_map, decide_eq_true_eq]
  exact and_comm

namespace Rigid

/-- The bases of moved accesses are the renamed ones, in the same order. -/
theorem bases_map (h : Rigid f name touches) :
    bases (touches.map (Prod.map f id)) = (bases touches).map name := by
  have hnames : (touches.map (Prod.map f id)).map (·.1.base) =
      (touches.map (·.1.base)).map name := by
    simp only [List.map_map]
    exact List.map_congr_left h.base
  have hsymbolic : ((touches.map (·.1.base)).map name).filter (· ≠ "") =
      ((touches.map (·.1.base)).filter (· ≠ "")).map name := by
    rw [List.filter_map]
    congr 1
    refine List.filter_congr ?_
    intro b hb
    obtain ⟨t, ht, rfl⟩ := List.mem_map.mp hb
    simp [h.absolute t ht]
  unfold bases
  rw [hnames, hsymbolic]
  refine firsts_map ?_
  intro b hb c hc hbc
  obtain ⟨s, hs, rfl⟩ := List.mem_map.mp (List.mem_filter.mp hb).1
  obtain ⟨t, ht, rfl⟩ := List.mem_map.mp (List.mem_filter.mp hc).1
  exact h.apart s hs t ht hbc

/-- The number of a base stays the same when it is renamed. -/
theorem baseNumber_eq (h : Rigid f name touches) (ht : t ∈ touches) :
    baseNumber (bases (touches.map (Prod.map f id))) (f t.1).base =
      baseNumber (bases touches) t.1.base := by
  rw [h.base t ht, h.bases_map]
  unfold baseNumber
  by_cases hb : t.1.base = ""
  · rw [if_pos ((h.absolute t ht).mpr hb), if_pos hb]
  · rw [if_neg (mt (h.absolute t ht).mp hb), if_neg hb, idxOf_map]
    intro b hmem hbt
    obtain ⟨-, s, hs, rfl⟩ := mem_bases.mp hmem
    exact h.apart s hs t ht hbt

/-- The offset within a base stays the same. -/
theorem offset_eq (h : Rigid f name touches) (ht : t ∈ touches) :
    (f t.1).address - lowest (touches.map (Prod.map f id)) (f t.1).base =
      t.1.address - lowest touches t.1.base := by
  have hmoved {s : Term.Touch} (hs : s ∈ touches) :
      Prod.map f id s ∈ touches.map (Prod.map f id) := List.mem_map_of_mem hs
  -- both lowest addresses are those of accesses, of which the first is moved to the second
  obtain ⟨⟨s, hs, hsbase, hslow⟩, hlow⟩ := lowest_spec ht
  obtain ⟨⟨u', hu', hubase, hulow⟩, hmlow⟩ := lowest_spec (hmoved ht)
  obtain ⟨u, hu, rfl⟩ := List.mem_map.mp hu'
  have hub : u.1.base = t.1.base := by
    refine h.apart u hu t ht ?_
    rw [← h.base u hu, ← h.base t ht]
    exact hubase
  have hsame : (f s.1).base = (f t.1).base := by rw [h.base s hs, h.base t ht, hsbase]
  have hle := hmlow _ (hmoved hs) hsame
  have hge := hlow u hu hub
  have hst := h.distance s hs t ht hsbase
  have hut := h.distance u hu t ht hub
  simp only [Prod.map_fst] at hulow hle
  omega

/-- A rigid map keeps the keys of accesses, apart from absolute addresses. -/
theorem map_key_describe (h : Rigid f name touches) :
    (describe (touches.map (Prod.map f id))).map (·.key .relative) =
      (describe touches).map (·.key .relative) := by
  unfold describe
  rw [List.map_map, List.map_map, List.map_map]
  refine List.map_congr_left ?_
  intro t ht
  simp only [Function.comp_apply, key, position, Prod.map_fst, Prod.map_snd, id_eq, Key.mk.injEq,
    true_and]
  exact ⟨h.baseNumber_eq ht, h.offset_eq ht, congrArg _ (h.epoch t ht)⟩

end Rigid

end Access

end Pathwise
