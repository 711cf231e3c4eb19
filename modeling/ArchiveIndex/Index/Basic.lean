import ArchiveIndex.Glob.Compiled
import ArchiveIndex.Index.History
import ArchiveIndex.Index.Kind
import ArchiveIndex.Index.Live

/-!
# Indexes

One interface for both kinds of index: entries are added block by block, and the index answers
with the entries it shows, all of them or those that a pattern selects.
-/

namespace ArchiveIndex

inductive Index
  | complete (history : History)
  | filtered (live : Live)

namespace Index

/-- An index without entries. -/
def empty : Kind → Index
  | .complete => complete .empty
  | .filtered => filtered .empty

/-- Adds the next entry of the block being read. -/
def add : Index → Entry → Index
  | complete history, e => complete (history.add e)
  | filtered live, e => filtered (live.add e)

/-- Marks the end of a block. The full history does not care where blocks end. -/
def endBlock : Index → Index
  | complete history => complete history
  | filtered live => filtered live.endBlock

/-- The entries shown. -/
def entries : Index → List Entry
  | complete history => history.entries
  | filtered live => live.entries

/-- The index after its entries were asked for. -/
def refresh : Index → Index
  | complete history => complete history
  | filtered live => filtered live.refresh

/-- The names deleted so far in their order, where the index keeps track of them. -/
def deletedNames? : Index → Option (List Text)
  | complete _ => none
  | filtered live => some live.deletedNames

/-- The entries shown whose names a compiled pattern selects. -/
def select (index : Index) (r : Glob.Regex) : List Entry :=
  index.entries.filter fun e => r.selects e.name

/-- The entries shown whose names a pattern selects. -/
def glob (index : Index) (pattern : Text) : Except Glob.Rejection (List Entry) :=
  (Glob.compile pattern).map index.select

/-- Adds a whole block, unless its footer declares another number of entries. -/
def feed (index : Index) (b : Block) : Except CountMismatch Index :=
  match b.mismatch? with
  | some m => .error m
  | none => .ok (b.entries.foldl add index).endBlock

@[simp] theorem entries_refresh (index : Index) : index.refresh.entries = index.entries := by
  cases index <;> rfl

end Index
end ArchiveIndex
