import ArchiveIndex.Entry
import ArchiveIndex.Numeral

/-!
# Listings

An entry is listed on one line of four columns with tabs between them: the mode, the size, the
checksum and the name. The mode is shown in the usual ten letters: the type of the file, then
read, write and execute for the owner, the group and others. A set-user, set-group or sticky
bit takes the place of the execute letter, in lower case if execution is allowed too. A
deletion says so in the first column.

A mode has to fit in 32 bits to be shown.
-/

namespace ArchiveIndex.Listing

/-- Why a mode cannot be shown: it is negative, or does not fit in 32 bits, or not even in 64. -/
inductive ModeError
  | negative
  | beyond32
  | beyond64
deriving DecidableEq

def ModeError.message : ModeError → String
  | negative => "can't convert negative value to unsigned int"
  | beyond32 => "mode out of range"
  | beyond64 => "Python int too large to convert to C unsigned long"

/-- The number in a mode, if it can be shown. -/
def checkMode (mode : Int) : Except ModeError Nat :=
  if mode < 0 then .error .negative
  else if 0x10000000000000000 ≤ mode then .error .beyond64
  else if 0x100000000 ≤ mode then .error .beyond32
  else .ok mode.toNat

/-- The letter for the type of a file, which bits 12 to 15 of the mode give. A mode without a
type is that of a regular file. -/
def typeLetter (mode : Nat) : Char :=
  match mode / 0x1000 % 0x10 with
  | 0o00 => '-'
  | 0o10 => '-'
  | 0o04 => 'd'
  | 0o12 => 'l'
  | 0o02 => 'c'
  | 0o06 => 'b'
  | 0o01 => 'p'
  | 0o14 => 's'
  | _ => '?'

/-- A letter, or a dash where the bit is not set. -/
def flagLetter (mode bit : Nat) (letter : Char) : Char := if mode.testBit bit then letter else '-'

/-- The execute letter, with the special bit that shares its place. -/
def executeLetter (mode bit special : Nat) (lower upper : Char) : Char :=
  match mode.testBit special, mode.testBit bit with
  | true, true => lower
  | true, false => upper
  | false, true => 'x'
  | false, false => '-'

/-- The ten letters of a mode. -/
def modeLetters (mode : Nat) : List Char :=
  [typeLetter mode,
    flagLetter mode 8 'r', flagLetter mode 7 'w', executeLetter mode 6 11 's' 'S',
    flagLetter mode 5 'r', flagLetter mode 4 'w', executeLetter mode 3 10 's' 'S',
    flagLetter mode 2 'r', flagLetter mode 1 'w', executeLetter mode 0 9 't' 'T']

/-- The columns of a deletion. -/
def deletionLine (e : Entry) : Text := Text.ofString "deleted\t-\t-\t" ++ e.name

/-- The columns of an entry with content before its name. -/
def contentColumns (mode : Nat) (e : Entry) : List Char :=
  modeLetters mode ++ '\t' :: Numeral.ofNat e.size ++
    '\t' :: Numeral.hex 8 (Bits.lowWord e.crc32) ++ ['\t']

/-- The columns of an entry with content. -/
def contentLine (mode : Nat) (e : Entry) : Text :=
  (contentColumns mode e).map CodePoint.ofChar ++ e.name

/-- The line of an entry. -/
def line (e : Entry) : Except ModeError Text :=
  if e.isDeleted then .ok (deletionLine e)
  else (checkMode e.mode).map fun mode => contentLine mode e

end ArchiveIndex.Listing
