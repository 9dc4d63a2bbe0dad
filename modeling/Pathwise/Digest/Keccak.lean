import Pathwise.Text.Quoted

/-!
# Keccak-256

The sponge with a state of 25 lanes of 64 bits, of which 17 take up input, and a digest of four
lanes. The padding is a byte 1, zero bytes, and the top bit of the last byte of the block.
-/

namespace Pathwise.Keccak

/-- The lanes of the state; lane `x + 5 * y` stands in column `x` of plane `y`. -/
abbrev State := Vector UInt64 25

/-- The state before anything is taken up. -/
def State.zero : State :=
  Vector.replicate 25 0

/-- The lane in a column of a plane, both counted modulo 5. -/
def State.lane (s : State) (x y : Nat) : UInt64 :=
  s.get ⟨x % 5 + 5 * (y % 5), by omega⟩

/-- A state by a function of column and plane. -/
def State.ofLanes (f : Nat → Nat → UInt64) : State :=
  Vector.ofFn fun i => f (i.val % 5) (i.val / 5)

/-- Rotates a lane to the left. -/
def rotate (a : UInt64) (n : Nat) : UInt64 :=
  if n % 64 = 0 then a
  else a <<< UInt64.ofNat (n % 64) ||| a >>> UInt64.ofNat (64 - n % 64)

/-- By how much the lanes are rotated, in the order of the state. -/
def offsets : Vector Nat 25 :=
  #v[0, 1, 62, 28, 27, 36, 44, 6, 55, 20, 3, 10, 43, 25, 39, 41, 45, 15, 21, 8, 18, 2, 61, 56, 14]

/-- What is added to the first lane in each round. -/
def roundConstants : List UInt64 :=
  [0x0000000000000001, 0x0000000000008082, 0x800000000000808A, 0x8000000080008000,
    0x000000000000808B, 0x0000000080000001, 0x8000000080008081, 0x8000000000008009,
    0x000000000000008A, 0x0000000000000088, 0x0000000080008009, 0x000000008000000A,
    0x000000008000808B, 0x800000000000008B, 0x8000000000008089, 0x8000000000008003,
    0x8000000000008002, 0x8000000000000080, 0x000000000000800A, 0x800000008000000A,
    0x8000000080008081, 0x8000000000008080, 0x0000000080000001, 0x8000000080008008]

/-- Adds the parities of two neighbouring columns to each lane. -/
def theta (s : State) : State :=
  let parity : Vector UInt64 5 := Vector.ofFn fun x =>
    s.lane x 0 ^^^ s.lane x 1 ^^^ s.lane x 2 ^^^ s.lane x 3 ^^^ s.lane x 4
  let column (x : Nat) : UInt64 := parity.get ⟨x % 5, by omega⟩
  .ofLanes fun x y => s.lane x y ^^^ column (x + 4) ^^^ rotate (column (x + 1)) 1

/-- Rotates the lanes and moves them to other planes. -/
def rhoPi (s : State) : State :=
  .ofLanes fun x y =>
    let column := x + 3 * y
    rotate (s.lane column x) (offsets.get ⟨column % 5 + 5 * (x % 5), by omega⟩)

/-- Combines each lane with the next two of its plane. -/
def chi (s : State) : State :=
  .ofLanes fun x y => s.lane x y ^^^ (~~~ s.lane (x + 1) y &&& s.lane (x + 2) y)

/-- One round of the permutation. -/
def round (s : State) (constant : UInt64) : State :=
  let t := chi (rhoPi (theta s))
  t.set 0 (t.get 0 ^^^ constant)

/-- The permutation. -/
def permute (s : State) : State :=
  roundConstants.foldl round s

/-- The number of bytes in a block. -/
def rate : Nat := 136

/-- A message with its padding. -/
def pad (bytes : List UInt8) : List UInt8 :=
  let free := rate - bytes.length % rate
  if free = 1 then bytes ++ [0x81]
  else bytes ++ 0x01 :: List.replicate (free - 2) 0 ++ [0x80]

/-- The lane that is written by up to eight bytes, the lowest first. -/
def laneOf (bytes : List UInt8) : UInt64 :=
  bytes.foldr (fun b lane => lane <<< 8 ||| b.toUInt64) 0

/-- Takes up one block. -/
def absorb (s : State) (block : Array UInt8) : State :=
  permute (Vector.ofFn fun i =>
    s.get i ^^^ laneOf (block.extract (8 * i.val) (8 * i.val + 8)).toList)

/-- Takes up the given number of blocks. -/
def absorbAll (s : State) (bytes : Array UInt8) (blocks : Nat) : State :=
  (List.range blocks).foldl
    (fun s i => absorb s (bytes.extract (rate * i) (rate * i + rate))) s

/-- The bytes of a lane, the lowest first. -/
def laneBytes (lane : UInt64) : List UInt8 :=
  (List.range 8).map fun i => (lane >>> UInt64.ofNat (8 * i)).toUInt8

/-- A digest, as 32 bytes. -/
abbrev Digest := List UInt8

/-- The digest of a message. -/
def digest (bytes : List UInt8) : Digest :=
  let padded := (pad bytes).toArray
  let s := absorbAll .zero padded (padded.size / rate)
  (s.toList.take 4).flatMap laneBytes

/-- The digits of a digest as a hexadecimal numeral. -/
def hexDigits (d : Digest) : String :=
  String.join (d.map fun b => Text.hexPadded 2 b.toNat)

/-- A digest as a hexadecimal numeral. -/
def text (d : Digest) : String :=
  "0x" ++ hexDigits d

end Pathwise.Keccak
