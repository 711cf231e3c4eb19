/-!
# Bits of Integers

Flags, modes and checksums are stored as integers of either sign, and their bits are those of
the two's complement form, which reaches infinitely far to the left. Bit 0 is the parity, and
halving a number moves every bit down by one place; the lowest 32 bits are the remainder modulo
`2³²`. Both are right for negative numbers because `Int` divides towards minus infinity by a
positive number.
-/

namespace ArchiveIndex.Bits

/-- Whether bit `k` of the two's complement form of `n` is set. -/
def isSet (n : Int) : Nat → Bool
  | 0 => n % 2 == 1
  | k + 1 => isSet (n / 2) k

/-- One more than the greatest 32-bit number. -/
def wordSize : Nat := 0x100000000

/-- The number that the lowest 32 bits of `n` form. -/
def lowWord (n : Int) : Nat := (n % wordSize).toNat

@[simp] theorem isSet_zero (n : Int) : isSet n 0 = (n % 2 == 1) := rfl

@[simp] theorem isSet_succ (n : Int) (k : Nat) : isSet n (k + 1) = isSet (n / 2) k := rfl

end ArchiveIndex.Bits
