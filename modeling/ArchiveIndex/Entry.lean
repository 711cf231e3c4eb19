import ArchiveIndex.Calendar
import ArchiveIndex.Permission
import ArchiveIndex.Text.CodePoint

/-!
# Entries

An entry records one event of the archive: a file was written, or a name was deleted. The
header names the file and holds its metadata; the rest says where the content lies. An entry
that records a deletion is a *tombstone* and has no content.

Field values that come from outside are a `Draft` until they are checked: a name must not be
empty, and places and sizes must not be negative. `Entry` cannot hold anything else.
-/

namespace ArchiveIndex

/-- What every record of the index says of a file. The modification time counts nanoseconds
from the epoch. -/
structure Header where
  name : Text
  mtimeNs : Int
  mode : Int
  flag : Int
  name_ne : name ≠ []
deriving DecidableEq

namespace Header

/-- Bit 0 of the flag marks a deletion. -/
def isDeleted (h : Header) : Bool := Bits.isSet h.flag 0

/-- The modification time in the calendar, rounded down to microseconds. -/
def mtime (h : Header) : Except DateTime.RangeError DateTime :=
  DateTime.ofMicroseconds (h.mtimeNs / 1000)

/-- The permissions that the mode grants. -/
def permissions (h : Header) : List Permission := Permission.ofMode h.mode

end Header

/-- A header with the place of the content. `blockOffset` counts from the start of the archive,
`start` from the start of the block, and `crc32` is the checksum as stored, of either sign. -/
structure Entry extends Header where
  blockOffset : Nat
  start : Nat
  size : Nat
  crc32 : Int
deriving DecidableEq

namespace Entry

/-- The checksum as an unsigned 32-bit number; a tombstone has none. -/
def checksum (e : Entry) : Option Nat :=
  if e.isDeleted then none else some (Bits.lowWord e.crc32)

/-- The length of the content; a tombstone has none. -/
def contentSize (e : Entry) : Option Nat := if e.isDeleted then none else some e.size

/-- Where the content begins and ends in the archive; a tombstone has none. -/
def contentSpan (e : Entry) : Option (Nat × Nat) :=
  let begin := e.blockOffset + e.start
  if e.isDeleted then none else some (begin, begin + e.size)

/-! ## Drafts -/

/-- The fields of an entry before they are checked. -/
structure Draft where
  name : Text
  mtimeNs : Int := 0
  mode : Int := 0
  flag : Int := 0
  blockOffset : Int := 0
  start : Int := 0
  size : Int := 0
  crc32 : Int := 0
deriving DecidableEq

/-- A field that counts bytes. -/
inductive Extent
  | blockOffset
  | start
  | size
deriving DecidableEq

def Extent.name : Extent → String
  | blockOffset => "block_offset"
  | start => "start"
  | size => "size"

/-- Why a draft is no entry. -/
inductive Flaw
  | emptyName
  | negative (field : Extent)
deriving DecidableEq

def Flaw.message : Flaw → String
  | emptyName => "Entry name may not be empty"
  | negative field => field.name ++ " must be >= 0"

/-- Checks the fields in order: the name, then the three that count bytes. -/
def Draft.check (d : Draft) : Except Flaw Entry :=
  if h : d.name = [] then .error .emptyName
  else if d.blockOffset < 0 then .error (.negative .blockOffset)
  else if d.start < 0 then .error (.negative .start)
  else if d.size < 0 then .error (.negative .size)
  else .ok
    { name := d.name
      mtimeNs := d.mtimeNs
      mode := d.mode
      flag := d.flag
      name_ne := h
      blockOffset := d.blockOffset.toNat
      start := d.start.toNat
      size := d.size.toNat
      crc32 := d.crc32 }

/-- The fields of an entry. -/
def draft (e : Entry) : Draft where
  name := e.name
  mtimeNs := e.mtimeNs
  mode := e.mode
  flag := e.flag
  blockOffset := e.blockOffset
  start := e.start
  size := e.size
  crc32 := e.crc32

/-- The fields of an entry pass the check, and give the entry back. -/
@[simp] theorem check_draft (e : Entry) : e.draft.check = .ok e := by
  have h : ∀ n : Nat, ¬ ((n : Int) < 0) := by omega
  simp [Draft.check, draft, e.name_ne, h]

/-- Nothing is changed by the check: an entry has the fields of its draft. -/
theorem draft_of_check_eq_ok {d : Draft} {e : Entry} (h : d.check = .ok e) : e.draft = d := by
  unfold Draft.check at h
  split at h
  · simp at h
  · split at h
    · simp at h
    · rename_i h₁
      split at h
      · simp at h
      · rename_i h₂
        split at h
        · simp at h
        · rename_i h₃
          injection h with h
          rw [← h]
          simp only [draft, Int.toNat_of_nonneg (Int.not_lt.1 h₁),
            Int.toNat_of_nonneg (Int.not_lt.1 h₂), Int.toNat_of_nonneg (Int.not_lt.1 h₃)]

end Entry
end ArchiveIndex
