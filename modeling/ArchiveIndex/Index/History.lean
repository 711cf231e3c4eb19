import ArchiveIndex.Block

/-!
# The Full History

The index that hides nothing: every entry that was ever recorded, deletions and repeated names
included, in the order in which they were added.
-/

namespace ArchiveIndex

/-- The entries added so far. -/
structure History where
  recorded : Array Entry

namespace History

def empty : History := ⟨#[]⟩

def add (h : History) (e : Entry) : History := ⟨h.recorded.push e⟩

def entries (h : History) : List Entry := h.recorded.toList

@[simp] theorem entries_empty : empty.entries = [] := rfl

@[simp] theorem entries_add (h : History) (e : Entry) : (h.add e).entries = h.entries ++ [e] := by
  simp [add, entries]

end History
end ArchiveIndex
