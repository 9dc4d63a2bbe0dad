import Pathwise.Oracle.Choices
import Pathwise.Oracle.Pairing

/-!
# Sampling

The sampling oracle evaluates the constraints of two paths on samples, each of which chooses a
candidate for every symbol. The paths differ if on some sample those of one hold and those of the
other do not.
-/

namespace Pathwise.Sampling

/-- The values that a choice gives to the names of one side. Where a name occurs twice, the later
value counts. -/
def bindings (side : Symbol → Option String) (symbols : List Symbol) (candidates : List (List Nat))
    (choice : List Nat) : List (String × Nat) :=
  ((symbols.zip (candidates.zip choice)).filterMap fun (s, values, i) =>
    (side s).map fun name => (name, values.getD i 0)).reverse

/-- The assignment by a list of names and values. -/
def assignment (bound : List (String × Nat)) : Assignment :=
  fun name => bound.lookup name

/-- Whether the constraints of a path hold under some values. -/
def verdictOn (p : Path) (bound : List (String × Nat)) : Except OracleError Bool :=
  match Constraint.allHold (assignment bound) p.constraints with
  | .ok b => .ok b
  | .error e => .error (.notEvaluable p.label e)

/-- Compares two paths on samples, up to the first on which they differ. -/
def compareOn (a b : Path) (symbols : List Symbol) (candidates : List (List Nat)) :
    List (List Nat) → Oracle.Answer
  | [] => .ok true
  | choice :: rest =>
    match verdictOn a (bindings (·.a) symbols candidates choice) with
    | .error e => .failed e
    | .ok x =>
      match verdictOn b (bindings (·.b) symbols candidates choice) with
      | .error e => .failed e
      | .ok y => if x = y then compareOn a b symbols candidates rest else .ok false

/-- How many samples are taken if nothing is asked for. -/
def defaultLimit : Nat := 512

/-- The number of samples that is meant by a setting. -/
def limitOf (maxSamples : Int) : Nat :=
  if maxSamples ≤ 0 then defaultLimit else maxSamples.toNat

/-- The answer of the sampling oracle. -/
def answer (rng : Generator) (limit : Nat) (ctx : Context) (a b : Profile) : Oracle.Answer :=
  match Symbol.pair a.path b.path with
  | .error e => .failed e
  | .ok symbols =>
    match ctx with
    | .cancelled => .failed .cancelled
    | .live =>
      let candidates := Symbol.candidates a b symbols
      compareOn a.path b.path symbols candidates
        (choices rng (candidates.map List.length) limit)

/-- The sampling oracle. -/
def oracle (rng : Generator) (limit : Nat) : Oracle where
  name := "sampling"
  decide := answer rng limit

end Pathwise.Sampling

namespace Pathwise.Oracle

/-- The oracle of a strategy. There is no solver here, so the strategies that would use one take
samples instead. -/
def ofStrategy (rng : Sampling.Generator) (strategy : String) (maxSamples : Int) :
    Except UnknownName (Option Oracle) :=
  match strategy with
  | "" | "none" => .ok none
  | "sampling" | "z3" | "hybrid" => .ok (some (Sampling.oracle rng (Sampling.limitOf maxSamples)))
  | _ => .error ⟨"oracle strategy", strategy⟩

end Pathwise.Oracle
