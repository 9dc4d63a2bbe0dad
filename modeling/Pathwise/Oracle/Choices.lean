import Pathwise.Word

/-!
# Choices

A sample chooses a candidate for every symbol, by its index. If the product of the numbers of
candidates is not above a limit, an odometer counts through all choices: the first wheel moves at
every step, and a wheel that is back at 0 moves the next. Otherwise the first choices walk along all
candidate lists side by side, and the others are drawn at random up to the limit.

The product is taken in a signed word of 64 bits, and no further once it is above the limit.
-/

namespace Pathwise.Sampling

/-! ### Random numbers -/

/-- A generator of random numbers, as a library provides it. Nothing is known of its numbers but
that they lie below the bound that is asked for. -/
structure Generator where
  /-- What the generator keeps from one number to the next. -/
  State : Type
  /-- The state for a seed. -/
  seeded : Int → State
  /-- A number below a bound, and the state after it. -/
  below : State → Nat → Nat × State
  below_lt : ∀ g n, 0 < n → (below g n).1 < n

/-- The linear congruential generator of 64 bits, which takes its numbers from the high ones. -/
def Generator.congruential : Generator where
  State := UInt64
  seeded := .ofInt
  below g n :=
    let next := g * 6364136223846793005 + 1442695040888963407
    ((next >>> 33).toNat % n, next)
  below_lt _ _ hn := Nat.mod_lt _ hn

/-- Draws an index below each of the counts. -/
def draw (rng : Generator) (g : rng.State) : List Nat → List Nat × rng.State
  | [] => ([], g)
  | n :: counts =>
    let (i, g) := rng.below g n
    let (choice, g) := draw rng g counts
    (i :: choice, g)

/-! ### The odometer -/

/-- Moves the odometer by a step, and says whether its last wheel came back to 0. -/
def tick : List Nat → List Nat → List Nat × Bool
  | n :: counts, i :: choice =>
    if i + 1 < n then ((i + 1) :: choice, false)
    else
      let (choice, wrapped) := tick counts choice
      (0 :: choice, wrapped)
  | _, choice => (choice, true)

/-- How many steps the odometer can still take. -/
def stepsLeft : List Nat → List Nat → Nat
  | n :: counts, i :: choice => (n - 1 - i) + max n 1 * stepsLeft counts choice
  | _, _ => 0

/-- A tick that does not wrap around leaves fewer steps. -/
theorem stepsLeft_tick_lt {counts choice : List Nat} (h : (tick counts choice).2 = false) :
    stepsLeft counts (tick counts choice).1 < stepsLeft counts choice := by
  induction counts generalizing choice with
  | nil => cases h
  | cons n counts ih =>
    cases choice with
    | nil => cases h
    | cons i choice =>
      rw [tick] at h ⊢
      by_cases hi : i + 1 < n
      · rw [if_pos hi]
        simp only [stepsLeft]
        omega
      · -- the wheel loses what it can still do, but a step of the next one is worth more
        rw [if_neg hi] at h ⊢
        have hstep : max n 1 * (stepsLeft counts (tick counts choice).1 + 1)
            ≤ max n 1 * stepsLeft counts choice := Nat.mul_le_mul_left _ (ih h)
        simp only [stepsLeft, Nat.mul_add, Nat.mul_one] at hstep ⊢
        omega

/-- The choices that the odometer shows from a given one on, until its last wheel comes back to
0. -/
def countUp (counts choice : List Nat) : List (List Nat) :=
  if _ : (tick counts choice).2 = false then choice :: countUp counts (tick counts choice).1
  else [choice]
termination_by stepsLeft counts choice
decreasing_by exact stepsLeft_tick_lt ‹_›

/-! ### Choices up to a limit -/

/-- The product of the counts as far as it is taken. -/
def productUpTo (limit : Nat) (total : Int) : List Nat → Int
  | [] => total
  | n :: counts =>
    let total := int64 (total * n)
    if limit < total then total else productUpTo limit total counts

/-- The choice at the place `j` of all lists, each of which starts again at its end. -/
def abreast (counts : List Nat) (j : Nat) : List Nat :=
  counts.map (j % ·)

/-- Adds the choices of a walk along all lists side by side, from the place `j` on. The walk is over
at the end of the longest list, or if there are enough choices. -/
def walk (counts : List Nat) (longest limit j : Nat) (out : Array (List Nat)) :
    Array (List Nat) :=
  if j < longest ∧ out.size < limit then
    walk counts longest limit (j + 1) (out.push (abreast counts j))
  else out
termination_by longest - j

/-- Adds choices at random, up to the limit. -/
def fill (rng : Generator) (counts : List Nat) (limit : Nat) (g : rng.State)
    (out : Array (List Nat)) : Array (List Nat) :=
  if out.size < limit then
    let (choice, g) := draw rng g counts
    fill rng counts limit g (out.push choice)
  else out
termination_by limit - out.size

/-- The seed for a number of symbols and a limit. -/
def seed (symbols limit : Nat) : Int :=
  int64 (symbols * 7919 + limit)

/-- The choices for symbols with the given numbers of candidates. -/
def choices (rng : Generator) (counts : List Nat) (limit : Nat) : List (List Nat) :=
  if counts.isEmpty then [[]]
  else if productUpTo limit 1 counts ≤ limit then countUp counts (counts.map fun _ => 0)
  else
    let walked := walk counts (counts.foldl max 0) limit 0 #[]
    (fill rng counts limit (rng.seeded (seed counts.length limit)) walked).toList

end Pathwise.Sampling
