/-!
# Binary Floating-Point Numbers

The 64-bit format with 53 significant bits, as exact numbers: a finite value is
`± significand · 2 ^ exponent`. `Binary64.ofDecimal` rounds a decimal fraction to the nearest
such value, a tie to the even significand, by exact integer arithmetic.
-/

namespace ArchiveIndex

/-- A value of the 64-bit format. In a finite value that `ofDecimal` makes, the significand has
53 bits, or fewer at the least exponent. -/
inductive Binary64
  | finite (negative : Bool) (significand : Nat) (exponent : Int)
  | infinity (negative : Bool)
  | nan
deriving DecidableEq

namespace Binary64

/-- The least exponent of a finite value. -/
def leastExponent : Int := -1074

/-- The greatest exponent of a finite value. -/
def greatestExponent : Int := 971

/-- One more than the greatest significand. -/
def significandBound : Nat := 0x20000000000000

/-- `num / den` rounded to the nearest natural number, a tie to the even one. -/
def roundQuotient (num den : Nat) : Nat :=
  let q := num / den
  let r := num % den
  if 2 * r < den ∨ (2 * r = den ∧ q % 2 = 0) then q else q + 1

/-- The fraction `num / (den · 2 ^ e)` as numerator and denominator. -/
def scale (num den : Nat) (e : Int) : Nat × Nat :=
  if e < 0 then (num * Nat.pow 2 e.natAbs, den) else (num, den * Nat.pow 2 e.natAbs)

/-- The exponent at which the positive fraction `num / den` has 53 bits before the point, or
the least exponent if that is higher. -/
def exponentOf (num den : Nat) : Int :=
  let e : Int := (num.log2 : Int) - den.log2 - 53
  let (n, d) := scale num den e
  max leastExponent (if significandBound * d ≤ n then e + 1 else e)

/-- The value nearest to the positive fraction `num / den`. -/
def nearest (negative : Bool) (num den : Nat) : Binary64 :=
  let e := exponentOf num den
  let (n, d) := scale num den e
  let m := roundQuotient n d
  let (m, e) := if m = significandBound then (significandBound / 2, e + 1) else (m, e)
  if greatestExponent < e then infinity negative else finite negative m e

/-- The value nearest to `± digits · 10 ^ exponent`. A number from 10 ^ 310 on is beyond the
format, and one below 10 ^ -400 rounds to zero; deciding that first keeps the arithmetic
small. -/
def ofDecimal (negative : Bool) (digits : Nat) (exponent : Int) : Binary64 :=
  let width : Int := (Nat.toDigits 10 digits).length
  if digits = 0 then finite negative 0 0
  else if 310 < width + exponent then infinity negative
  else if width + exponent < -400 then finite negative 0 0
  else if exponent < 0 then nearest negative digits (Nat.pow 10 exponent.natAbs)
  else nearest negative (digits * Nat.pow 10 exponent.natAbs) 1

example : ofDecimal false 1 0 = finite false 0x10000000000000 (-52) := by decide
example : ofDecimal false 5 (-324) = finite false 1 (-1074) := by decide +kernel

end Binary64
end ArchiveIndex
