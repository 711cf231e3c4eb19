/-!
# Text as Code Points

A `Char` is a Unicode scalar value. A JSON string may also hold half of a surrogate pair on its
own, and so may an argument of the program. The texts of an archive, its names and the patterns
they are searched with, are therefore lists of code points, surrogates included. A character is a
code point and a string is a text; the way back is open only where there are no surrogates.
-/

namespace ArchiveIndex

/-- A number that Unicode can assign to a character, surrogates included. -/
abbrev CodePoint := Fin 0x110000

/-- Text that may hold lone surrogates. -/
abbrev Text := List CodePoint

namespace CodePoint

/-- Code points are the same exactly if they compare as the same. -/
instance (priority := high) lawfulBEq : LawfulBEq CodePoint := inferInstance

/-- The code point of a character. -/
def ofChar (c : Char) : CodePoint :=
  ⟨c.toNat, by
    have h := c.valid
    simp only [UInt32.isValidChar, Nat.isValidChar] at h
    show c.val.toNat < 0x110000
    omega⟩

instance : Coe Char CodePoint := ⟨ofChar⟩

/-- The code point of a number; one beyond the last code point is reduced. -/
def ofNat (n : Nat) : CodePoint := Fin.ofNat 0x110000 n

/-- The first half of a surrogate pair. -/
def isHighSurrogate (p : CodePoint) : Bool := 0xD800 ≤ p.val && p.val < 0xDC00

/-- The second half of a surrogate pair. -/
def isLowSurrogate (p : CodePoint) : Bool := 0xDC00 ≤ p.val && p.val < 0xE000

/-- Half of a surrogate pair, which is no character. -/
def isSurrogate (p : CodePoint) : Bool := p.isHighSurrogate || p.isLowSurrogate

/-- The code point beyond U+FFFF that a surrogate pair stands for. -/
def ofSurrogates (high low : CodePoint) : CodePoint :=
  ofNat (0x10000 + (high.val - 0xD800) * 0x400 + (low.val - 0xDC00))

/-- The character at a code point, unless it is a surrogate. -/
def toChar? (p : CodePoint) : Option Char :=
  if p.isSurrogate then none else some (Char.ofNat p.val)

@[simp] theorem val_ofChar (c : Char) : (ofChar c).val = c.toNat := rfl

@[simp] theorem ofChar_inj {c d : Char} : ofChar c = ofChar d ↔ c = d := by
  rw [Fin.ext_iff, val_ofChar, val_ofChar]
  exact Char.toNat_inj

/-- A character is no surrogate. -/
@[simp] theorem isSurrogate_ofChar (c : Char) : (ofChar c).isSurrogate = false := by
  have h := c.valid
  simp only [UInt32.isValidChar, Nat.isValidChar] at h
  have hval : (ofChar c).val = c.val.toNat := rfl
  simp only [isSurrogate, isHighSurrogate, isLowSurrogate, hval, Bool.or_eq_false_iff,
    Bool.and_eq_false_iff, decide_eq_false_iff_not]
  omega

/-- Nothing is lost on the way from a character to its code point and back. -/
@[simp] theorem toChar?_ofChar (c : Char) : (ofChar c).toChar? = some c := by
  rw [toChar?, isSurrogate_ofChar, if_neg (by decide)]
  exact congrArg some (Char.ofNat_toNat c)

end CodePoint

namespace Text

/-- The code points of a string. -/
def ofString (s : String) : Text := s.toList.map CodePoint.ofChar

instance : Coe String Text := ⟨ofString⟩

/-- Joins each first half of a surrogate pair with a second half right after it, from left to
right. -/
def joinSurrogates : Text → Text
  | [] => []
  | [p] => [p]
  | p :: q :: rest =>
    if p.isHighSurrogate && q.isLowSurrogate then
      CodePoint.ofSurrogates p q :: joinSurrogates rest
    else p :: joinSurrogates (q :: rest)

end Text
end ArchiveIndex
