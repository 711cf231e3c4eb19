/-!
# Numerals

Numbers as text: decimal numerals of integers, and hexadecimal numerals of a fixed width.
Everything is over lists of characters; reading a decimal numeral is core's
`Nat.ofDigitChars`, which undoes `Nat.toDigits`.
-/

namespace ArchiveIndex.Numeral

/-- The decimal numeral of a natural number, without leading zeros. -/
def ofNat (n : Nat) : List Char := Nat.toDigits 10 n

/-- The number that a run of decimal digits denotes. -/
def toNat (digits : List Char) : Nat := Nat.ofDigitChars 10 digits 0

/-- The decimal numeral of an integer: a minus sign in front of a negative one. -/
def ofInt (n : Int) : List Char :=
  if n < 0 then '-' :: ofNat n.natAbs else ofNat n.natAbs

/-- The last `width` digits of the hexadecimal numeral, in lower case. -/
def hex : Nat → Nat → List Char
  | 0, _ => []
  | width + 1, n => hex width (n / 16) ++ [Nat.digitChar (n % 16)]

/-- The decimal numeral of an integer, as a string. -/
def text (n : Int) : String := String.ofList (ofInt n)

@[simp] theorem toNat_ofNat (n : Nat) : toNat (ofNat n) = n :=
  Nat.ofDigitChars_toDigits (by decide) (by decide)

@[simp] theorem length_hex (width n : Nat) : (hex width n).length = width := by
  induction width generalizing n with
  | zero => rfl
  | succ width ih => simp [hex, ih]

/-- Different numbers have different numerals. -/
theorem ofNat_injective {m n : Nat} (h : ofNat m = ofNat n) : m = n := by
  rw [← toNat_ofNat m, h, toNat_ofNat]

end ArchiveIndex.Numeral
