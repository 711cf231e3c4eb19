import ArchiveIndex.Bits

/-!
# Footers

The last bytes of a block say how many entries its index has, how long the index is, and how
long the whole block is. A reader that knows only where a block ends finds the block and its
index from them.
-/

namespace ArchiveIndex

/-- The trailer of a block. Sizes are in bytes; `crc32` is the checksum of the index as stored,
of either sign. -/
structure Footer where
  entryCount : Nat
  indexSize : Nat
  blockSize : Nat
  crc32 : Int
deriving DecidableEq

namespace Footer

/-- The bytes a footer takes: a 32-bit count, two 64-bit sizes and a 32-bit checksum. -/
def byteLength : Nat := 4 + 8 + 8 + 4

/-- The checksum as an unsigned 32-bit number. -/
def checksum (f : Footer) : Nat := Bits.lowWord f.crc32

/-- Where a block starts that ends at `blockEnd`. -/
def blockStart (f : Footer) (blockEnd : Int) : Int := blockEnd - f.blockSize

/-- Where the index of a block starts that ends at `blockEnd`: it lies right before the
footer. -/
def indexStart (f : Footer) (blockEnd : Int) : Int := blockEnd - byteLength - f.indexSize

/-- Whether the declared number of entries is the given one. -/
def declares (f : Footer) (count : Int) : Bool := count == f.entryCount

@[simp] theorem declares_natCast (f : Footer) (count : Nat) :
    f.declares count = true ↔ count = f.entryCount := by
  simp only [declares, beq_iff_eq]
  omega

/-! ## Drafts -/

/-- The fields of a footer before they are checked. -/
structure Draft where
  entryCount : Int
  indexSize : Int
  blockSize : Int
  crc32 : Int := 0
deriving DecidableEq

/-- A field of a footer that counts something. -/
inductive Extent
  | entryCount
  | indexSize
  | blockSize
deriving DecidableEq

def Extent.name : Extent → String
  | entryCount => "entry_count"
  | indexSize => "index_size"
  | blockSize => "block_size"

/-- Why a draft is no footer. -/
inductive Flaw
  | negative (field : Extent)
deriving DecidableEq

def Flaw.message : Flaw → String
  | negative field => field.name ++ " must be >= 0"

/-- Checks that the three counts are not negative, in their order. -/
def Draft.check (d : Draft) : Except Flaw Footer :=
  if d.entryCount < 0 then .error (.negative .entryCount)
  else if d.indexSize < 0 then .error (.negative .indexSize)
  else if d.blockSize < 0 then .error (.negative .blockSize)
  else .ok
    { entryCount := d.entryCount.toNat
      indexSize := d.indexSize.toNat
      blockSize := d.blockSize.toNat
      crc32 := d.crc32 }

/-- The fields of a footer. -/
def draft (f : Footer) : Draft where
  entryCount := f.entryCount
  indexSize := f.indexSize
  blockSize := f.blockSize
  crc32 := f.crc32

/-- The fields of a footer pass the check, and give the footer back. -/
@[simp] theorem check_draft (f : Footer) : f.draft.check = .ok f := by
  have h : ∀ n : Nat, ¬ ((n : Int) < 0) := by omega
  simp [Draft.check, draft, h]

/-- Nothing is changed by the check: a footer has the fields of its draft. -/
theorem draft_of_check_eq_ok {d : Draft} {f : Footer} (h : d.check = .ok f) : f.draft = d := by
  unfold Draft.check at h
  split at h
  · simp at h
  · rename_i h₁
    split at h
    · simp at h
    · rename_i h₂
      split at h
      · simp at h
      · rename_i h₃
        injection h with h
        rw [← h]
        simp only [draft, Int.toNat_of_nonneg (Int.not_lt.1 h₁),
          Int.toNat_of_nonneg (Int.not_lt.1 h₂), Int.toNat_of_nonneg (Int.not_lt.1 h₃)]

end Footer
end ArchiveIndex
