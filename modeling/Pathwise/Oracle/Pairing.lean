import Pathwise.Oracle.Basic

/-!
# Pairing the symbols of two paths

Two paths talk about the same things under different names. Inputs are paired by the order of their
declaration. Elements of memory are paired if they agree in base, offset, epoch and width, where
bases are numbered in the order of their first occurrence, and offsets are relative to the lowest
address with the same base. What has no partner on the other side stays alone. A symbol has at most
one name on each side: if a key comes up a second time on a side, a new symbol is opened for it.

Each symbol has candidates, the values on which the paths are compared: the extreme ones, those
where the domain of an input begins or ends, and the neighbourhood of the literals of the same
width. -/

namespace Pathwise

/-- A symbol of one or both paths, with the names that it has there. -/
structure Symbol where
  width : Nat
  a : Option String
  b : Option String
  deriving Repr, DecidableEq, Inhabited

/-- One of two paths that are compared. -/
inductive Side where
  | a
  | b
  deriving Repr, DecidableEq, Inhabited

/-- The name of a symbol on a side. -/
def Symbol.name (s : Symbol) : Side → Option String
  | .a => s.a
  | .b => s.b

/-- A symbol with a name on a side. -/
def Symbol.named (s : Symbol) (side : Side) (name : String) : Symbol :=
  match side with
  | .a => { s with a := some name }
  | .b => { s with b := some name }

/-- By what elements of memory are paired. -/
structure MemoryKey where
  base : Nat
  offset : Nat
  epoch : Nat
  width : Nat
  deriving Repr, DecidableEq, Inhabited

namespace Path

/-- The bases of a path, absolute addresses among them, in the order of their first occurrence. -/
def bases (p : Path) : List String :=
  firsts (p.memory.map (·.base))

/-- The lowest address of a path with a given base. -/
def lowestAddress (p : Path) (base : String) : Nat :=
  ((p.memory.filter (·.base == base)).map (·.address)).min?.getD 0

/-- The key of a location. -/
def memoryKey (p : Path) (l : Location) : MemoryKey :=
  { base := p.bases.idxOf l.base
    offset := l.address - p.lowestAddress l.base
    epoch := l.epoch
    width := l.width }

/-- The first location of each name. -/
def namedLocations (p : Path) : List Location :=
  p.memory.foldl (fun ls l => if ls.any (·.name == l.name) then ls else ls ++ [l]) []

/-- The names of the elements of memory, with their keys. -/
def memoryNames (p : Path) : List (String × MemoryKey) :=
  p.namedLocations.map fun l => (l.name, p.memoryKey l)

end Path

namespace Symbol

/-- Pairs inputs, the first of which has the given place. -/
def pairInputs (place : Nat) : List Variable → List Variable → Except OracleError (List Symbol)
  | v :: vs, w :: ws =>
    if v.width = w.width then
      (pairInputs (place + 1) vs ws).map (⟨v.width, some v.name, some w.name⟩ :: ·)
    else .error (.inputWidth place v.width w.width)
  | _, _ => .ok []

/-- Names the symbol of a key on a side. The symbols that were opened are given with their keys, the
latest first, and a key stands for its latest symbol. There is none if the key is new, or if that
symbol has a name on the side already. -/
def nameKnown? (side : Side) (name : String) (key : MemoryKey) :
    List (MemoryKey × Symbol) → Option (List (MemoryKey × Symbol))
  | [] => none
  | (k, s) :: opened =>
    if k = key then
      if (s.name side).isSome then none else some ((k, s.named side name) :: opened)
    else (nameKnown? side name key opened).map ((k, s) :: ·)

/-- Names the symbol of a key on a side, or a new one for that key. -/
def nameKey (side : Side) (opened : List (MemoryKey × Symbol)) (e : String × MemoryKey) :
    List (MemoryKey × Symbol) :=
  let fresh : Symbol := ⟨e.2.width, none, none⟩
  (nameKnown? side e.1 e.2 opened).getD ((e.2, fresh.named side e.1) :: opened)

/-- Pairs elements of memory: first those of the one side are named, and then those of the other. -/
def pairMemory (as bs : List (String × MemoryKey)) : List Symbol :=
  ((bs.foldl (nameKey .b) (as.foldl (nameKey .a) [])).map (·.2)).reverse

/-- The symbols of two paths. -/
def pair (a b : Path) : Except OracleError (List Symbol) :=
  if a.inputs.length ≠ b.inputs.length then
    .error (.inputCount a.inputs.length b.inputs.length)
  else
    (pairInputs 0 a.inputs b.inputs).map (· ++ pairMemory a.memoryNames b.memoryNames)

/-! ### Candidates -/

/-- The literals of a width in the constraints of a path. -/
def literals (width : Nat) (p : Path) : List Nat :=
  p.constraints.flatMap fun c => c.term.subterms.filterMap fun o =>
    match o.term with
    | .literal n w => if w = width then some n else none
    | _ => none

/-- The extreme values of a width: unsigned and signed ones, and their neighbours. -/
def extremes (width : Nat) : List Nat :=
  [0, 1, mask width, 2 ^ (width - 1), 2 ^ (width - 1) - 1]

/-- A number and its neighbours, modulo `2 ^ width`. -/
def neighbours (width n : Nat) : List Nat :=
  [n % 2 ^ width, (n + 1) % 2 ^ width, (((n : Int) - 1) % 2 ^ width).toNat]

/-- The boundaries of the domains that belong to the symbol with a given place. -/
def boundaries (a b : Profile) (place : Nat) : List Nat :=
  match a.domains[place]?, b.domains[place]? with
  | some d, some e => d.boundaries ++ e.boundaries
  | _, _ => []

/-- How many candidates a symbol has at most. -/
def maxCandidates : Nat := 64

/-- Takes at most the allowed number of members of a list, the ends among them and evenly spaced. -/
def thin (values : List Nat) : List Nat :=
  if values.length ≤ maxCandidates then values
  else
    (List.range maxCandidates).map fun i =>
      let gaps := maxCandidates - 1
      values.getD ((2 * i * (values.length - 1) + gaps) / (2 * gaps)) 0

/-- The candidates of a symbol before they are thinned, in ascending order. -/
def allCandidates (a b : Profile) (place : Nat) (s : Symbol) : List Nat :=
  let values := extremes s.width ++ boundaries a b place ++
    (literals s.width a.path ++ literals s.width b.path).flatMap (neighbours s.width)
  (firsts (values.map (· % 2 ^ s.width))).mergeSort fun x y => x ≤ y

/-- The candidates of the symbols, in ascending order for each. -/
def candidates (a b : Profile) (symbols : List Symbol) : List (List Nat) :=
  symbols.zipIdx.map fun (s, i) => thin (allCandidates a b i s)

end Symbol

end Pathwise
