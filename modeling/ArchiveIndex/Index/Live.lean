import Std.Data.ExtTreeMap
import Std.Data.ExtTreeSet
import ArchiveIndex.Block

/-!
# The Live View

The index that shows, for each name, the latest entry, and nothing for a name that was deleted.
It has to be fed the newest block first, entry by entry, with a mark after each block.

* While a block is read its writes are **staged**: the last write of a name within a block wins,
  and a deletion anywhere in the block drops the name.
* At the end of the block what is staged is **committed**: a name that a newer block has already
  committed keeps its entry.
* A **deleted** name stays deleted: older blocks can no longer bring it back. What a newer block
  has committed is not touched by a deletion in an older one.

The entries are shown in the order of their names. Sorting them is put off until they are asked
for, and the result is kept as the `view` until the end of the next block.
-/

namespace ArchiveIndex

/-- Names are in the order of their code points. -/
instance (priority := high) Text.transOrd : Std.TransOrd Text := inferInstance

/-- Entries by name. -/
abbrev NameMap := Std.ExtTreeMap Text Entry compare

/-- A set of names. -/
abbrev NameSet := Std.ExtTreeSet Text compare

/-- The state of reading blocks from the newest to the oldest. -/
structure Live where
  committed : NameMap
  staged : NameMap
  deleted : NameSet
  view : Option (List Entry)

namespace Live

def empty : Live := ⟨∅, ∅, ∅, some []⟩

/-- Adds the next entry of the block being read. -/
def add (s : Live) (e : Entry) : Live :=
  if e.isDeleted then
    { s with deleted := s.deleted.insert e.name, staged := s.staged.erase e.name }
  else if e.name ∈ s.deleted then s
  else { s with staged := s.staged.insert e.name e }

/-- Marks the end of a block. -/
def endBlock (s : Live) : Live :=
  { s with committed := s.staged ∪ s.committed, staged := ∅, view := none }

/-- The committed entries in the order of their names. -/
def sorted (s : Live) : List Entry := s.committed.toList.map (·.2)

/-- The entries shown: the kept view, or else the committed entries sorted afresh. -/
def entries (s : Live) : List Entry := s.view.getD s.sorted

/-- The state after the entries were asked for, which keeps them. -/
def refresh (s : Live) : Live := { s with view := some s.entries }

/-- The deleted names in their order. -/
def deletedNames (s : Live) : List Text := s.deleted.toList

@[simp] theorem entries_empty : empty.entries = [] := rfl

@[simp] theorem entries_refresh (s : Live) : s.refresh.entries = s.entries := rfl

@[simp] theorem entries_endBlock (s : Live) : s.endBlock.entries = s.endBlock.sorted := rfl

@[simp] theorem refresh_refresh (s : Live) : s.refresh.refresh = s.refresh := rfl

/-- The end of a block commits a staged entry unless its name is already committed. -/
theorem getElem?_committed_endBlock (s : Live) (name : Text) :
    s.endBlock.committed[name]? = s.committed[name]?.or s.staged[name]? :=
  Std.ExtTreeMap.getElem?_union

end Live
end ArchiveIndex
