import ArchiveIndex.Json.Value
import ArchiveIndex.Numeral
import ArchiveIndex.Text.Position

/-!
# JSON Numbers

A number is a sign, digits without a superfluous leading zero, and then perhaps a fraction and an
exponent. Reading takes as much as fits: `01` is a zero with a digit left over, and `1.` a one
with a point left over. A number with neither fraction nor exponent is an integer.
-/

namespace ArchiveIndex.Json

/-- The parts of a number. -/
structure NumberParts where
  negative : Bool
  whole : List Char
  fraction : Option (List Char)
  exponent : Option (Bool × List Char)

/-- The digits at the front of a text, and what follows them. -/
def digits (s : List Char) : List Char × List Char :=
  (s.takeWhile Char.isDigit, s.dropWhile Char.isDigit)

theorem length_digits_snd_le (s : List Char) : (digits s).2.length ≤ s.length :=
  (List.dropWhile_sublist _).length_le

/-- A minus sign, if there is one. -/
def readSign : List Char → Bool × List Char
  | '-' :: rest => (true, rest)
  | s => (false, s)

/-- The digits before the point: a lone zero, or digits that start with another one. -/
def readWhole : List Char → Option (List Char × List Char)
  | [] => none
  | c :: rest =>
    if c = '0' then some (['0'], rest)
    else if c.isDigit then some (c :: (digits rest).1, (digits rest).2)
    else none

/-- A point and at least one digit. -/
def readFraction : List Char → Option (List Char) × List Char
  | [] => (none, [])
  | c :: rest =>
    if c = '.' ∧ (digits rest).1 ≠ [] then (some (digits rest).1, (digits rest).2)
    else (none, c :: rest)

/-- The sign of an exponent. -/
def readExponentSign : List Char → Bool × List Char
  | '-' :: rest => (true, rest)
  | '+' :: rest => (false, rest)
  | s => (false, s)

/-- The letter, a sign or none, and at least one digit. -/
def readExponent : List Char → Option (Bool × List Char) × List Char
  | [] => (none, [])
  | c :: rest =>
    let (negative, rest') := readExponentSign rest
    if (c = 'e' ∨ c = 'E') ∧ (digits rest').1 ≠ [] then
      (some (negative, (digits rest').1), (digits rest').2)
    else (none, c :: rest)

/-- The number at the front of a text. -/
def readNumber (s : List Char) : Option (NumberParts × List Char) := do
  let (negative, s) := readSign s
  let (whole, s) ← readWhole s
  let (fraction, s) := readFraction s
  let (exponent, s) := readExponent s
  return (⟨negative, whole, fraction, exponent⟩, s)

/-- A sign before a natural number. -/
def signed (negative : Bool) (n : Nat) : Int := if negative then -(n : Int) else n

/-- Whether a number has neither fraction nor exponent. -/
def NumberParts.isInteger (p : NumberParts) : Bool := p.fraction.isNone && p.exponent.isNone

/-- The value of a number. -/
def NumberParts.value (p : NumberParts) : Json :=
  if p.isInteger then .int (signed p.negative (Numeral.toNat p.whole))
  else
    let fraction := p.fraction.getD []
    let exponent := match p.exponent with
      | none => 0
      | some (negative, digits) => signed negative (Numeral.toNat digits)
    .float (.ofDecimal p.negative (Numeral.toNat (p.whole ++ fraction))
      (exponent - fraction.length))

theorem length_readSign_le (s : List Char) : (readSign s).2.length ≤ s.length := by
  unfold readSign
  split <;> simp

theorem length_of_readWhole {s w r : List Char} (h : readWhole s = some (w, r)) :
    r.length < s.length := by
  cases s with
  | nil => simp [readWhole] at h
  | cons c rest =>
    have hd := length_digits_snd_le rest
    rw [readWhole] at h
    split at h
    · simp at h
      simp [← h.2]
    · split at h
      · simp at h
        simp only [← h.2, List.length_cons]
        omega
      · simp at h

theorem length_readFraction_le (s : List Char) : (readFraction s).2.length ≤ s.length := by
  cases s with
  | nil => simp [readFraction]
  | cons c rest =>
    have hd := length_digits_snd_le rest
    rw [readFraction]
    split
    · simp only [List.length_cons]
      omega
    · simp

theorem length_readExponentSign_le (s : List Char) :
    (readExponentSign s).2.length ≤ s.length := by
  unfold readExponentSign
  split <;> simp

theorem length_readExponent_le (s : List Char) : (readExponent s).2.length ≤ s.length := by
  cases s with
  | nil => simp [readExponent]
  | cons c rest =>
    have hs := length_readExponentSign_le rest
    have hd := length_digits_snd_le (readExponentSign rest).2
    rw [readExponent]
    simp only
    split
    · simp only [List.length_cons]
      omega
    · simp

/-- A number takes at least one character. -/
theorem length_of_readNumber {s r : List Char} {p : NumberParts}
    (h : readNumber s = some (p, r)) : r.length < s.length := by
  unfold readNumber at h
  have h₁ := length_readSign_le s
  generalize readSign s = sign at h h₁
  obtain ⟨negative, s₁⟩ := sign
  cases hw : readWhole s₁ with
  | none => simp [hw] at h
  | some w =>
    obtain ⟨whole, s₂⟩ := w
    have h₂ := length_of_readWhole hw
    have h₃ := length_readFraction_le s₂
    have h₄ := length_readExponent_le (readFraction s₂).2
    simp [hw] at h
    rw [← h.2]
    simp only at h₁
    omega

end ArchiveIndex.Json
