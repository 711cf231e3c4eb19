import ArchiveIndex.Proofs.Index.FeedingOrder

/-!
# Agreement of the two kinds of index

The full history is fed the oldest block first and only grows at its end; the live view is fed
the newest block first, and the first block that has anything of a name decides. Both see the
same blocks, because one order is the other reversed, ties included.

**Theorem (`view_agrees_with_history`).** If both kinds can be built from the same blocks, the
history holds exactly the entries of the blocks, and the view shows of a name either nothing or
the last record of the name in the history, which then is no deletion. It shows nothing exactly
if the block that supplied that record holds a deletion of the name.

For both the same block counts: the newest that mentions the name (`newestMention`).
-/

namespace ArchiveIndex.Index

/-- The records of the full history, each with the block that supplied it. -/
def supplied (blocks : List Block) : List (Block × Entry) :=
  (feedingOrder blocks .complete).flatMap fun b => b.entries.map fun e => (b, e)

/-- The last record of a name in the full history, with the block that supplied it. -/
def lastSupplied (name : Text) (blocks : List Block) : Option (Block × Entry) :=
  ((supplied blocks).filter fun p => p.2.name = name).getLast?

/-- The newest block that mentions a name. -/
def newestMention (name : Text) (blocks : List Block) : Option Block :=
  (Block.newestFirst blocks).find? fun b => mentions name b.entries

theorem of_newestMention {name : Text} {blocks : List Block} {b : Block}
    (h : newestMention name blocks = some b) : b ∈ blocks ∧ mentions name b.entries = true :=
  ⟨(Block.newestFirst_perm blocks).mem_iff.1 (List.mem_of_find?_eq_some h),
    (List.find?_eq_some_iff_append.1 h).1⟩

/-- The newest block that mentions a name exists if any block mentions it. -/
theorem exists_newestMention_of_mem {name : Text} {blocks : List Block} {b : Block}
    (hb : b ∈ blocks) (hm : mentions name b.entries = true) :
    ∃ newest, newestMention name blocks = some newest := by
  rw [← Option.isSome_iff_exists, newestMention, List.find?_isSome]
  exact ⟨b, (Block.newestFirst_perm blocks).mem_iff.2 hb, hm⟩

theorem map_snd_supplied (blocks : List Block) :
    (supplied blocks).map (·.2) = (feedingOrder blocks .complete).flatMap (·.entries) := by
  simp [supplied, List.map_flatMap]

theorem filter_map_pair (name : Text) (b : Block) :
    ((b.entries.map fun e => (b, e)).filter fun p => p.2.name = name) =
      (recordsOf name b.entries).map fun e => (b, e) := by
  rw [List.filter_map]
  rfl

/-- Where blocks are read from the last to the first, the last record of a name is that of the
first block that mentions it. -/
theorem getLast?_filter_reverse (name : Text) (newest : List Block) :
    ((newest.reverse.flatMap fun b => b.entries.map fun e => (b, e)).filter
        fun p => p.2.name = name).getLast? =
      (newest.find? fun b => mentions name b.entries).bind fun b =>
        (recordsOf name b.entries).getLast?.map fun e => (b, e) := by
  induction newest with
  | nil => rfl
  | cons b older ih =>
    rw [List.reverse_cons, List.flatMap_append, List.filter_append, List.getLast?_append, ih,
      List.flatMap_singleton, filter_map_pair, List.getLast?_map, List.find?_cons]
    cases hm : mentions name b.entries with
    | true =>
      rw [Option.bind_some, List.getLast?_eq_some_getLast (recordsOf_ne_nil hm)]
      rfl
    | false =>
      rw [recordsOf_eq_nil_iff.2 hm]
      rfl

theorem lastSupplied_eq (name : Text) (blocks : List Block) :
    lastSupplied name blocks = (newestMention name blocks).bind fun b =>
      (recordsOf name b.entries).getLast?.map fun e => (b, e) :=
  getLast?_filter_reverse name (Block.newestFirst blocks)

/-- The view shows what survives of a name in the newest block that mentions it. -/
theorem recordsOf_view {blocks : List Block} {view : Index}
    (h : (build .filtered blocks).result = .ok view) (name : Text) :
    recordsOf name view.entries =
      ((newestMention name blocks).bind fun b => survivor (recordsOf name b.entries)).toList := by
  rw [entries_of_build_filtered h, Live.recordsOf_entries_foldl_feed, Live.reconciled,
    List.find?_map, Option.bind_map]
  rfl

/-- The history ends with the last record of a name as `lastSupplied` gives it. -/
theorem getLast?_recordsOf_history {blocks : List Block} {history : Index}
    (h : (build .complete blocks).result = .ok history) (name : Text) :
    (recordsOf name history.entries).getLast? = (lastSupplied name blocks).map (·.2) := by
  rw [lastSupplied, ← List.getLast?_map, entries_of_build_complete h, ← map_snd_supplied,
    recordsOf, List.filter_map]
  rfl

/-- Nothing is lost in the history and nothing is doubled. -/
theorem history_perm {blocks : List Block} {history : Index}
    (h : (build .complete blocks).result = .ok history) :
    history.entries.Perm (blocks.flatMap (·.entries)) := by
  rw [entries_of_build_complete h]
  exact ((List.reverse_perm _).trans (Block.newestFirst_perm blocks)).flatMap_right _

/-- An entry that an index shows is an entry of a block. -/
theorem mem_blocks_of_build {kind : Kind} {blocks : List Block} {index : Index}
    (h : (build kind blocks).result = .ok index) {e : Entry} (he : e ∈ index.entries) :
    ∃ b ∈ blocks, e ∈ b.entries := by
  cases kind with
  | complete => exact List.mem_flatMap.1 ((history_perm h).mem_iff.1 he)
  | filtered =>
    have hshown : e ∈ recordsOf e.name index.entries := mem_recordsOf.2 ⟨he, rfl⟩
    rw [recordsOf_view h, Option.mem_toList, Option.bind_eq_some_iff] at hshown
    obtain ⟨b, hb, hs⟩ := hshown
    have hlast : e ∈ recordsOf e.name b.entries := List.mem_of_getLast? (survivor_eq_some hs).2
    exact ⟨b, (of_newestMention hb).1, (mem_recordsOf.1 hlast).1⟩

/-- A name in the history is mentioned by a block. -/
theorem exists_newestMention {blocks : List Block} {history : Index}
    (h : (build .complete blocks).result = .ok history) {name : Text}
    (hn : mentions name history.entries = true) :
    ∃ b, newestMention name blocks = some b := by
  obtain ⟨e, he, rfl⟩ : ∃ e ∈ history.entries, e.name = name := by simpa [mentions] using hn
  obtain ⟨b, hb, heb⟩ := List.mem_flatMap.1 ((history_perm h).mem_iff.1 he)
  have hm : mentions e.name b.entries = true := by
    simp only [mentions, List.any_eq_true, decide_eq_true_eq]
    exact ⟨e, heb, rfl⟩
  exact exists_newestMention_of_mem hb hm

/-- **The view agrees with the history.** Where both kinds can be built, the history has the
entries of all blocks. What the view shows of a name is the last record of the name in the
history, and no deletion. A name in the history is not shown exactly if the block that supplied
its last record holds a deletion of it. -/
theorem view_agrees_with_history {blocks : List Block} {history view : Index}
    (hc : (build .complete blocks).result = .ok history)
    (hf : (build .filtered blocks).result = .ok view) :
    history.entries.Perm (blocks.flatMap (·.entries)) ∧
      (∀ e ∈ view.entries,
        (recordsOf e.name history.entries).getLast? = some e ∧ e.isDeleted = false) ∧
      (supplied blocks).map (·.2) = history.entries ∧
      ∀ name, mentions name history.entries = true →
        ∃ b e, b ∈ blocks ∧ lastSupplied name blocks = some (b, e) ∧
          (mentions name view.entries = false ↔
            ∃ d ∈ b.entries, d.name = name ∧ d.isDeleted = true) := by
  refine ⟨history_perm hc, fun e he => ?_, ?_, fun name hn => ?_⟩
  · have hshown : e ∈ recordsOf e.name view.entries := mem_recordsOf.2 ⟨he, rfl⟩
    rw [recordsOf_view hf, Option.mem_toList, Option.bind_eq_some_iff] at hshown
    obtain ⟨b, hb, hs⟩ := hshown
    obtain ⟨hlive, hlast⟩ := survivor_eq_some hs
    rw [getLast?_recordsOf_history hc, lastSupplied_eq, hb, Option.bind_some, hlast]
    exact ⟨rfl, hlive e (List.mem_of_getLast? hlast)⟩
  · rw [map_snd_supplied, entries_of_build_complete hc]
  · obtain ⟨b, hb⟩ := exists_newestMention hc hn
    obtain ⟨hmem, hm⟩ := of_newestMention hb
    have hne := recordsOf_ne_nil hm
    refine ⟨b, (recordsOf name b.entries).getLast hne, hmem, ?_, ?_⟩
    · rw [lastSupplied_eq, hb, Option.bind_some, List.getLast?_eq_some_getLast hne]
      rfl
    · rw [← recordsOf_eq_nil_iff, recordsOf_view hf, hb, Option.bind_some, Option.toList_eq_nil_iff,
        survivor_eq_none_iff hne]
      simp [anyDeleted, recordsOf]

/-- In the tied blocks the last record of a name is a write, but the block that supplied it
deletes the name as well. -/
theorem view_agrees_with_history_tied :
    ∃ history view,
      (build .complete tied).result = .ok history ∧ (build .filtered tied).result = .ok view ∧
        history.entries.Perm (tied.flatMap (·.entries)) ∧
        ∃ b e, lastSupplied "a" tied = some (b, e) ∧ mentions "a" view.entries = false ∧
          ∃ d ∈ b.entries, d.name = "a" ∧ d.isDeleted = true := by
  obtain ⟨history, hc, hm⟩ : ∃ history, (build .complete tied).result = .ok history ∧
      mentions "a" history.entries = true := ⟨_, by cbv, by cbv⟩
  obtain ⟨view, hf, hv⟩ : ∃ view, (build .filtered tied).result = .ok view ∧
      mentions "a" view.entries = false := ⟨_, by cbv, by cbv⟩
  obtain ⟨hperm, -, -, hlast⟩ := view_agrees_with_history hc hf
  obtain ⟨b, e, -, hsupplied, hmissing⟩ := hlast "a" hm
  exact ⟨history, view, hc, hf, hperm, b, e, hsupplied, hv, hmissing.1 hv⟩

end ArchiveIndex.Index
