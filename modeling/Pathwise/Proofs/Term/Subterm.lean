import Pathwise.Term.Basic

/-!
# Subterms

`Term.parts` lists the subterms of a term without their surroundings. The parts of an application
are the application and the parts of its arguments (`parts_apply`), so a property of all parts
passes to the arguments, which is how it is used in inductions over terms (`inductionOn`).
-/

namespace Pathwise.Term

/-- Induction over terms: an application has a property if its arguments have it. -/
@[elab_as_elim]
theorem inductionOn {motive : Term → Prop} (t : Term) (input : ∀ v, motive (.input v))
    (cell : ∀ v l, motive (.cell v l)) (array : ∀ v, motive (.array v))
    (literal : ∀ n w, motive (.literal n w)) (truth : ∀ b, motive (.truth b))
    (apply : ∀ h args w, (∀ u ∈ args, motive u) → motive (.apply h args w)) : motive t := by
  refine @Term.rec motive (fun ts => ∀ u ∈ ts, motive u) input cell array literal truth apply
    ?_ ?_ t
  · intro u hu
    cases hu
  · intro t ts iht ihts u hu
    rcases List.mem_cons.mp hu with rfl | hu
    · exact iht
    · exact ihts u hu

/-- The subterms of a term, the term itself first. -/
def parts (t : Term) : List Term :=
  t.subterms.map (·.term)

/-- Which terms occur does not depend on the surroundings. -/
theorem map_term_occurrences (parent : Option Head) (place : Nat) (t : Term) :
    (t.occurrences parent place).map (·.term) = t.parts := by
  cases t <;> simp [parts, subterms, occurrences]

/-- The occurrences in arguments are the parts of the arguments. -/
theorem map_term_argOccurrences (h : Head) (place : Nat) (ts : List Term) :
    (argOccurrences h place ts).map (·.term) = ts.flatMap parts := by
  induction ts generalizing place with
  | nil => rfl
  | cons t ts ih =>
      rw [argOccurrences, List.map_append, map_term_occurrences, ih, List.flatMap_cons]

/-- The parts of an application are the application and the parts of its arguments. -/
theorem parts_apply (h : Head) (args : List Term) (w : Nat) :
    (apply h args w).parts = apply h args w :: args.flatMap parts := by
  rw [parts, subterms, occurrences, List.map_cons, map_term_argOccurrences]

/-- A term is a part of itself. -/
theorem mem_parts_self (t : Term) : t ∈ t.parts := by
  cases t <;> simp [parts, subterms, occurrences]

/-- The parts of an argument are parts of the application. -/
theorem mem_parts_apply {h : Head} {args : List Term} {w : Nat} {t u : Term} (ht : t ∈ args)
    (hu : u ∈ t.parts) : u ∈ (apply h args w).parts := by
  rw [parts_apply]
  exact List.mem_cons_of_mem _ (List.mem_flatMap.mpr ⟨t, ht, hu⟩)

/-- A property of all subterms is one of the term and of all subterms of its arguments. -/
theorem forall_parts_iff {P : Term → Prop} {t : Term} :
    (∀ u ∈ t.parts, P u) ↔ P t ∧ ∀ u ∈ t.args, ∀ v ∈ u.parts, P v := by
  cases t with
  | apply h args w =>
      simp only [parts_apply, List.mem_cons, List.mem_flatMap, Term.args]
      constructor
      · intro ht
        exact ⟨ht _ (.inl rfl), fun u hu v hv => ht v (.inr ⟨u, hu, hv⟩)⟩
      · rintro ⟨hroot, hargs⟩ v (rfl | ⟨u, hu, hv⟩)
        · exact hroot
        · exact hargs u hu v hv
  | _ => simp [parts, subterms, occurrences, Term.args]

/-- Induction from a subterm up to the term that it is a part of. -/
theorem parts_induction {motive : Term → Prop} {u : Term} (here : motive u)
    (inside : ∀ h args w, ∀ t ∈ args, motive t → motive (.apply h args w)) {t : Term}
    (hu : u ∈ t.parts) : motive t := by
  induction t using inductionOn with
  | apply h args w ih =>
      rw [parts_apply] at hu
      rcases List.mem_cons.mp hu with rfl | hu
      · exact here
      · obtain ⟨t, ht, hut⟩ := List.mem_flatMap.mp hu
        exact inside h args w t ht (ih t ht hut)
  | _ =>
      obtain rfl := List.mem_singleton.mp hu
      exact here

/-- The subterms of a subterm are subterms. -/
theorem parts_subset (t : Term) : ∀ u ∈ t.parts, u.parts ⊆ t.parts := by
  intro u hu
  refine parts_induction (motive := fun t => u.parts ⊆ t.parts) (List.Subset.refl _) ?_ hu
  intro h args w s hs ih v hv
  exact mem_parts_apply hs (ih hv)

/-- A variable occurs in a term, as an input or as a memory symbol. -/
def Mentions (t : Term) (v : Variable) : Prop :=
  .input v ∈ t.parts ∨ ∃ l, .cell v l ∈ t.parts

/-- An application mentions what its arguments mention. -/
theorem Mentions.of_arg {h : Head} {args : List Term} {w : Nat} {t : Term} {v : Variable}
    (ht : t ∈ args) (hv : t.Mentions v) : (apply h args w).Mentions v := by
  rcases hv with hv | ⟨l, hl⟩
  · exact .inl (mem_parts_apply ht hv)
  · exact .inr ⟨l, mem_parts_apply ht hl⟩

/-- Whether a term by itself is an array or an access to one. -/
def usesArray : Term → Bool
  | array _ => true
  | apply (.access _ _) _ _ => true
  | _ => false

/-- No array occurs in a term. -/
def ArrayFree (t : Term) : Prop :=
  ∀ u ∈ t.parts, u.usesArray = false

instance (t : Term) : Decidable t.ArrayFree :=
  inferInstanceAs (Decidable (∀ u ∈ t.parts, u.usesArray = false))

/-- The arguments of a term without arrays have none. -/
theorem ArrayFree.arg {h : Head} {args : List Term} {w : Nat} {t : Term}
    (hf : (apply h args w).ArrayFree) (ht : t ∈ args) : t.ArrayFree :=
  fun u hu => hf u (mem_parts_apply ht hu)

/-- The root of a term without arrays uses none. -/
theorem ArrayFree.root {t : Term} (hf : t.ArrayFree) : t.usesArray = false :=
  hf t (mem_parts_self t)

end Pathwise.Term
