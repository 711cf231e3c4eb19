import ArchiveIndex.Proofs.Index.FeedingOrder

/-!
# A view in place of old blocks

A live view takes its blocks from the newest to the oldest, so what it makes of the older ones can
be put in their place.

**Theorem (`view_replaces_blocks`).** Feed some blocks to a fresh index, and write the entries that
it shows into a single block. Feeding this block after any newer blocks leads to the same entries
as feeding the blocks that it was made of.

The deletions of the older blocks are not in the view, and need not be: a deletion only hides
records that are fed after it. Name by name, the blocks commit what the first of them with a record
of the name leaves of it (`Fate.foldl_feed`), and a block with just this record commits the same.
-/

namespace ArchiveIndex

/-- A block that has only what survives of a name leaves it as it is. -/
theorem survivor_firstSurvivor (blocks : List (List Entry)) :
    survivor (firstSurvivor blocks).toList = firstSurvivor blocks := by
  cases hfirst : firstSurvivor blocks with
  | none => rfl
  | some e =>
    obtain ⟨records, -, hs⟩ := Option.bind_eq_some_iff.1 hfirst
    obtain ⟨hlive, hlast⟩ := survivor_eq_some hs
    have he : e.isDeleted = false := hlive e (List.mem_of_getLast? hlast)
    simp [survivor, anyDeleted, he]

namespace Live

/-- Between two blocks it makes no difference to what will be shown whether older blocks follow
or the view of them. -/
theorem entries_feed_view {s : Live} (hs : s.Inv) (hstaged : s.staged = ∅)
    (older : List (List Entry)) :
    (s.feed (older.foldl feed empty).entries).entries = (older.foldl feed s).entries := by
  refine entries_congr (inv_foldl_feed hs older) (inv_feed hs _) fun name => ?_
  have hf : (s.fate name).staged = none := staged_fate hstaged name
  have hview : recordsOf name (older.foldl feed empty).entries =
      (firstSurvivor (older.map (recordsOf name))).toList := by
    rw [recordsOf_entries_foldl_feed, firstSurvivor_map_recordsOf]
  rw [fate_feed, fate_foldl_feed, Fate.feed_eq _ hf, Fate.foldl_feed _ hf, hview,
    survivor_firstSurvivor]

end Live

namespace Index

/-- Blocks without a mismatch are all fed. -/
theorem feedAll_of_matching {blocks : List Block} (h : ∀ b ∈ blocks, b.mismatch? = none)
    (index : Index) : (feedAll index blocks).2 = .ok (blocks.foldl addBlock index) := by
  rw [feedAll_snd, List.findSome?_eq_none_iff.2 h]

theorem feedAll_fresh {blocks : List Block} (h : ∀ b ∈ blocks, b.mismatch? = none) :
    (feedAll (empty .filtered) blocks).2 =
      .ok (filtered ((blocks.map (·.entries)).foldl Live.feed .empty)) := by
  rw [feedAll_of_matching h, empty, foldl_addBlock_filtered]

/-- **A view may take the place of the blocks it was made of.** From a fresh index, blocks can be
fed unless a footer is wrong. A block with the entries that older blocks show, fed after any newer
blocks, leads to the entries that the older blocks lead to. Without newer blocks it gives the view
again. -/
theorem view_replaces_blocks {newer older : List Block}
    (hnewer : ∀ b ∈ newer, b.mismatch? = none) (holder : ∀ b ∈ older, b.mismatch? = none) :
    ∃ view whole, (feedAll (empty .filtered) older).2 = .ok view ∧
      (feedAll (empty .filtered) (newer ++ older)).2 = .ok whole ∧
      ∀ b : Block, b.entries = view.entries → b.mismatch? = none →
        (∃ rebuilt, (feedAll (empty .filtered) (newer ++ [b])).2 = .ok rebuilt ∧
          rebuilt.entries = whole.entries) ∧
        ∃ again, (feedAll (empty .filtered) [b]).2 = .ok again ∧ again.entries = view.entries := by
  have hall : ∀ b ∈ newer ++ older, b.mismatch? = none := List.forall_mem_append.2 ⟨hnewer, holder⟩
  refine ⟨_, _, feedAll_fresh holder, feedAll_fresh hall, fun b hb hmatch => ?_⟩
  have hone : ∀ c ∈ [b], c.mismatch? = none := List.forall_mem_singleton.2 hmatch
  refine ⟨⟨_, feedAll_fresh (List.forall_mem_append.2 ⟨hnewer, hone⟩), ?_⟩,
    ⟨_, feedAll_fresh hone, ?_⟩⟩
  · rw [List.map_append, List.map_append, List.foldl_append, List.foldl_append, List.map_singleton,
      hb]
    exact Live.entries_feed_view (Live.inv_foldl_feed Live.inv_empty _)
      (Live.staged_foldl_feed rfl _) _
  · rw [List.map_singleton, hb]
    exact Live.entries_feed_view Live.inv_empty rfl _

/-- The deletion of a name that was written before is lost from the view of two blocks. -/
theorem view_replaces_blocks_deleted :
    let newer : List Block := [⟨9, [bareEntry "b" 0 (by decide)], none⟩]
    let older : List Block := [⟨5, [bareEntry "a" 1 (by decide)], none⟩,
      ⟨2, [bareEntry "a" 0 (by decide), bareEntry "c" 0 (by decide)], none⟩]
    let written : Block := ⟨5, [bareEntry "c" 0 (by decide)], some ⟨1, 0, 0, 0⟩⟩
    ∃ whole rebuilt, (feedAll (empty .filtered) (newer ++ older)).2 = .ok whole ∧
      (feedAll (empty .filtered) (newer ++ [written])).2 = .ok rebuilt ∧
      rebuilt.entries = whole.entries := by
  intro newer older written
  have hnewer : ∀ b ∈ newer, b.mismatch? = none := by decide
  have holder : ∀ b ∈ older, b.mismatch? = none := by decide
  obtain ⟨view, whole, hview, hwhole, hreplaced⟩ := view_replaces_blocks hnewer holder
  have hshown : (feedAll (empty .filtered) older).2.map entries = .ok written.entries := by cbv
  rw [hview] at hshown
  obtain ⟨⟨rebuilt, hrebuilt, hentries⟩, -⟩ :=
    hreplaced written (Except.ok.inj hshown).symm (by decide)
  exact ⟨whole, rebuilt, hwhole, hrebuilt, hentries⟩

end Index
end ArchiveIndex
