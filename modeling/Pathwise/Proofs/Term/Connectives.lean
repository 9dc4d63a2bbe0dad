import Pathwise.Term.Eval

/-!
# Conjunctions and disjunctions

A conjunction evaluates its arguments up to the first that is false, a disjunction up to the first
that is true. Both are one search (`Term.evalUntil`), for the truth value that settles them, so
that what is proved of the search holds of both (`evalAll_eq_evalUntil`, `evalAny_eq_evalUntil`).

* **Values** (`Term.evalUntil_eq`): arguments that all have truth values settle the search exactly
  if one of them is what is looked for. Where the search stops does not matter then.
-/

namespace Pathwise.Term

variable {env : Assignment} {args : List Term} {stop : Bool}

/-- Whether some term is as true as `stop` says, up to the first that is: `stop` itself if there is
one. -/
def evalUntil (env : Assignment) (stop : Bool) : List Term → Except EvalError Value
  | [] => .ok (.bool !stop)
  | t :: ts => do
    if (← eval env t).isTrue = stop then return .bool stop else evalUntil env stop ts

/-- A conjunction is evaluated until an argument is false. -/
theorem evalAll_eq_evalUntil (env : Assignment) (args : List Term) :
    evalAll env args = evalUntil env false args := by
  induction args with
  | nil => rw [evalAll, evalUntil, Bool.not_false]
  | cons t args ih =>
      rw [evalAll, evalUntil]
      refine bind_congr fun v => ?_
      cases v.isTrue with
      | false => rfl
      | true => exact ih

/-- A disjunction is evaluated until an argument is true. -/
theorem evalAny_eq_evalUntil (env : Assignment) (args : List Term) :
    evalAny env args = evalUntil env true args := by
  induction args with
  | nil => rw [evalAny, evalUntil, Bool.not_true]
  | cons t args ih =>
      rw [evalAny, evalUntil]
      refine bind_congr fun v => ?_
      cases v.isTrue with
      | false => exact ih
      | true => rfl

/-- An argument with a truth value ends the search, or leaves it to the arguments after it. -/
theorem evalUntil_cons {t : Term} {b : Bool} (h : eval env t = .ok (.bool b)) :
    evalUntil env stop (t :: args) =
      if b = stop then .ok (.bool stop) else evalUntil env stop args := by
  rw [evalUntil, h]
  rfl

/-- Where all arguments have values, the order of evaluation is not seen. -/
theorem evalUntil_eq {bs : List Bool} (hlen : args.length = bs.length)
    (h : ∀ p ∈ args.zip bs, eval env p.1 = .ok (.bool p.2)) :
    evalUntil env stop args = .ok (.bool (if stop ∈ bs then stop else !stop)) := by
  induction args generalizing bs with
  | nil =>
      obtain rfl : bs = [] := List.length_eq_zero_iff.mp hlen.symm
      rfl
  | cons t args ih =>
      obtain _ | ⟨b, bs⟩ := bs
      · simp at hlen
      have hhead : eval env t = .ok (.bool b) := h (t, b) List.mem_cons_self
      have htail := ih (by simpa using hlen) fun p hp => h p (List.mem_cons_of_mem _ hp)
      rw [evalUntil_cons hhead, htail]
      by_cases hb : b = stop
      · simp [hb]
      · simp [hb, Ne.symm hb]

end Pathwise.Term
