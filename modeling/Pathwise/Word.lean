/-!
# Words

Numbers of a fixed number of bits.

Mathlib has powers in all monoids, and where it is imported they are what `2 ^ n` means. For
naturals and integers they equal the powers of the core library, but they are other terms. The
latter come first here, so that a power is the same term in every module.
-/

namespace Pathwise

/-- The powers of the core library, before those of monoids. -/
@[default_instance 20000]
instance (priority := 2000) powNat {α : Type} [NatPow α] : Pow α Nat := instPowNat

/-- The greatest width of a bit-vector. -/
def maxWidth : Nat := 256

/-- The greatest number of a width. -/
def mask (width : Nat) : Nat :=
  2 ^ width - 1

/-- The greatest number of a width that may be greater than that of any bit-vector. -/
def wordMask (width : Nat) : Nat :=
  mask (min width maxWidth)

/-- The low bits of a number: as many as a width has, and not more than a bit-vector can have. -/
def lowBits (n width : Nat) : Nat :=
  n &&& wordMask width

/-- The number that a signed word of 64 bits holds for an integer: the one between `-2 ^ 63` and
`2 ^ 63` that has the same low bits. -/
def int64 (n : Int) : Int :=
  n.bmod (2 ^ 64)

end Pathwise
