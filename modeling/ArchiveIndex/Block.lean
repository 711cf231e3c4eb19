import ArchiveIndex.Entry
import ArchiveIndex.Footer

/-!
# Blocks

A block is a stretch of the archive with its own index: the entries in the order of their
writing, and perhaps a footer. Blocks are only ever appended, so a block at a higher offset is
a newer one.
-/

namespace ArchiveIndex

/-- A block whose index has been read. -/
structure Block where
  offset : Int
  entries : List Entry
  footer : Option Footer
deriving DecidableEq

/-- The footer of a block declares another number of entries than its index holds. -/
structure CountMismatch where
  offset : Int
  declared : Nat
  decoded : Nat
deriving DecidableEq

/-- A mismatch in words. It is given here for numbers of any length. The program writes out none of
more than 4300 digits, and in a dump that was loaded there are none (`Dump.digitLimit`). -/
def CountMismatch.message (m : CountMismatch) : String :=
  s!"Block at offset {m.offset}: footer declares {m.declared} entries, {m.decoded} decoded"

namespace Block

/-- What is wrong with the footer's count, if there is a footer and anything is wrong. -/
def mismatch? (b : Block) : Option CountMismatch :=
  match b.footer with
  | none => none
  | some f =>
    if f.declares b.entries.length then none
    else some ⟨b.offset, f.entryCount, b.entries.length⟩

/-- A block has a mismatch exactly if a footer stands there with another count. -/
theorem mismatch?_eq_some_iff {b : Block} {m : CountMismatch} :
    b.mismatch? = some m ↔
      ∃ f, b.footer = some f ∧ f.entryCount ≠ b.entries.length ∧
        m = ⟨b.offset, f.entryCount, b.entries.length⟩ := by
  unfold mismatch?
  cases b.footer with
  | none => simp
  | some f =>
    by_cases h : b.entries.length = f.entryCount
    · simp [h]
    · simp [h, Ne.symm h, @eq_comm _ m]

/-- Whether a block is at least as new as another. -/
def isNewer (a b : Block) : Bool := b.offset ≤ a.offset

/-- Blocks from the newest to the oldest; blocks at the same offset keep their order. -/
def newestFirst (blocks : List Block) : List Block := blocks.mergeSort isNewer

/-- The same with the place of each block among the given ones. -/
def newestFirstIndexed (blocks : List Block) : List (Block × Nat) :=
  blocks.zipIdx.mergeSort fun a b => isNewer a.1 b.1

theorem map_fst_newestFirstIndexed (blocks : List Block) :
    (newestFirstIndexed blocks).map (·.1) = newestFirst blocks := by
  unfold newestFirstIndexed newestFirst
  rw [List.map_mergeSort (s := isNewer) (by simp)]
  simp

/-! ## Drafts -/

/-- The parts of a block before they are checked. -/
structure Draft where
  offset : Int
  entries : List Entry.Draft := []
  footer : Option Footer.Draft := none

/-- Why a draft is no block. -/
inductive Flaw
  | footer (flaw : Footer.Flaw)
  | entry (flaw : Entry.Flaw)
deriving DecidableEq

def Flaw.message : Flaw → String
  | footer flaw => flaw.message
  | entry flaw => flaw.message

/-- Checks the footer, then the entries in order. -/
def Draft.check (d : Draft) : Except Flaw Block := do
  let footer ← (d.footer.mapM Footer.Draft.check).mapError .footer
  let entries ← (d.entries.mapM Entry.Draft.check).mapError .entry
  return { offset := d.offset, entries, footer }

end Block
end ArchiveIndex
