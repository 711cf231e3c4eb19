import ArchiveIndex.Index.Build
import ArchiveIndex.Proofs.Index.Reconciliation

/-!
# What building gives

Building an index is a loop over blocks that stops at the first mismatch. Here the loop is
opened once: `build_result` says that the result is the first mismatch in the feeding order, or
else the empty index with every block added in that order. What the blocks make of either kind
of index is said in its own terms, a list of entries that grows at its end or a live view that
is fed block after block.
-/

namespace ArchiveIndex

namespace History

theorem entries_foldl_add (h : History) (records : List Entry) :
    (records.foldl add h).entries = h.entries ++ records := by
  induction records generalizing h with
  | nil => simp
  | cons e records ih => rw [List.foldl_cons, ih, entries_add, List.append_assoc]; rfl

end History

namespace Index

/-- Adds the entries of a block and ends it, whatever its footer declares. -/
def addBlock (index : Index) (b : Block) : Index := (b.entries.foldl add index).endBlock

theorem feed_eq (index : Index) (b : Block) :
    index.feed b = match b.mismatch? with
      | some m => .error m
      | none => .ok (index.addBlock b) := rfl

/-- Feeding ends with the first mismatch, or else with every block added. -/
theorem feedAll_snd (index : Index) (blocks : List Block) :
    (feedAll index blocks).2 = match blocks.findSome? Block.mismatch? with
      | some m => .error m
      | none => .ok (blocks.foldl addBlock index) := by
  induction blocks generalizing index with
  | nil => rfl
  | cons b blocks ih =>
    rw [feedAll, feed_eq, List.findSome?_cons]
    cases b.mismatch? with
    | some m => rfl
    | none => exact ih (index.addBlock b)

/-- The result of building is the first mismatch in the feeding order, or else the index that
every block was added to. -/
theorem build_result (kind : Kind) (blocks : List Block) :
    (build kind blocks).result =
      match (feedingOrder blocks kind).findSome? Block.mismatch? with
      | some m => .error m
      | none => .ok ((feedingOrder blocks kind).foldl addBlock (empty kind)).refresh := by
  have h := feedAll_snd (empty kind) (feedingOrder blocks kind)
  unfold build
  generalize feedAll (empty kind) (feedingOrder blocks kind) = fed at h ⊢
  obtain ⟨events, result⟩ := fed
  cases hm : (feedingOrder blocks kind).findSome? Block.mismatch? with
  | some m =>
    obtain rfl : result = .error m := by simpa [hm] using h
    rfl
  | none =>
    obtain rfl : result = .ok _ := by simpa [hm] using h
    rfl

/-- An index that was built has every block added, in the feeding order. -/
theorem eq_refresh_of_build {kind : Kind} {blocks : List Block} {index : Index}
    (h : (build kind blocks).result = .ok index) :
    index = ((feedingOrder blocks kind).foldl addBlock (empty kind)).refresh := by
  rw [build_result] at h
  split at h
  · simp at h
  · exact (Except.ok.inj h).symm

/-! ## The full history -/

theorem foldl_add_complete (h : History) (records : List Entry) :
    records.foldl add (complete h) = complete (records.foldl History.add h) := by
  induction records generalizing h with
  | nil => rfl
  | cons e records ih => exact ih (h.add e)

theorem addBlock_complete (h : History) (b : Block) :
    addBlock (complete h) b = complete (b.entries.foldl History.add h) := by
  rw [addBlock, foldl_add_complete]
  rfl

theorem foldl_addBlock_complete (h : History) (blocks : List Block) :
    blocks.foldl addBlock (complete h) =
      complete ((blocks.flatMap (·.entries)).foldl History.add h) := by
  induction blocks generalizing h with
  | nil => rfl
  | cons b blocks ih =>
    rw [List.foldl_cons, addBlock_complete, ih, List.flatMap_cons, List.foldl_append]

theorem entries_foldl_addBlock_complete (h : History) (blocks : List Block) :
    (blocks.foldl addBlock (complete h)).entries = h.entries ++ blocks.flatMap (·.entries) := by
  rw [foldl_addBlock_complete]
  exact History.entries_foldl_add h _

/-- The full history has the entries of the blocks in the feeding order. -/
theorem entries_of_build_complete {blocks : List Block} {index : Index}
    (h : (build .complete blocks).result = .ok index) :
    index.entries = (feedingOrder blocks .complete).flatMap (·.entries) := by
  rw [eq_refresh_of_build h, entries_refresh, empty, entries_foldl_addBlock_complete,
    History.entries_empty, List.nil_append]

/-- The full history does not keep track of deleted names. -/
theorem deletedNames_of_build_complete {blocks : List Block} {index : Index}
    (h : (build .complete blocks).result = .ok index) : index.deletedNames? = none := by
  rw [eq_refresh_of_build h, empty, foldl_addBlock_complete]
  rfl

/-! ## The live view -/

theorem foldl_add_filtered (s : Live) (records : List Entry) :
    records.foldl add (filtered s) = filtered (records.foldl Live.add s) := by
  induction records generalizing s with
  | nil => rfl
  | cons e records ih => exact ih (s.add e)

theorem addBlock_filtered (s : Live) (b : Block) :
    addBlock (filtered s) b = filtered (s.feed b.entries) := by
  rw [addBlock, foldl_add_filtered]
  rfl

theorem foldl_addBlock_filtered (s : Live) (blocks : List Block) :
    blocks.foldl addBlock (filtered s) =
      filtered ((blocks.map (·.entries)).foldl Live.feed s) := by
  induction blocks generalizing s with
  | nil => rfl
  | cons b blocks ih =>
    rw [List.foldl_cons, addBlock_filtered, ih]
    rfl

/-- The live view shows what the blocks in the feeding order reconcile to. -/
theorem entries_of_build_filtered {blocks : List Block} {index : Index}
    (h : (build .filtered blocks).result = .ok index) :
    index.entries =
      (((feedingOrder blocks .filtered).map (·.entries)).foldl Live.feed .empty).entries := by
  rw [eq_refresh_of_build h, entries_refresh, empty, foldl_addBlock_filtered]
  rfl

theorem deletedNames_of_build_filtered {blocks : List Block} {index : Index}
    (h : (build .filtered blocks).result = .ok index) :
    index.deletedNames? = some
      (((feedingOrder blocks .filtered).map (·.entries)).foldl Live.feed .empty).deletedNames := by
  rw [eq_refresh_of_build h, empty, foldl_addBlock_filtered]
  rfl

end Index
end ArchiveIndex
