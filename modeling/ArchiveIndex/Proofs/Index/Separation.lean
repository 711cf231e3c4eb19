import ArchiveIndex.Proofs.Index.FeedingOrder

/-!
# Names do not interfere

All names share the containers of an index, but what becomes of a name depends on the records of
that name alone.

**Theorem (`build_of_selected`).** Build an index from blocks without footers, and another from
what is left of the blocks when the records of all but some names are taken out. The second index
shows exactly the selected entries of the first, in the same order. So selecting names by a
pattern may be done before building as well as after it, and two lists of blocks with the same
records of the selected names, however they differ in others, give the same for these names.

For the full history this is a fact about appending. For the live view the two runs are kept in
step by a relation of their states (`Live.Projects`): the second knows of a selected name what the
first knows, and nothing of other names. An entry of a selected name is added to both, an entry of
another name to the first only, and blocks end in both.
-/

namespace ArchiveIndex

/-! ## Taking records out -/

/-- The records of the selected names. -/
def selected (S : Text → Bool) (records : List Entry) : List Entry :=
  records.filter fun e => S e.name

namespace Block

/-- The block without the records of names that are not selected. -/
def selected (S : Text → Bool) (b : Block) : Block :=
  { b with entries := ArchiveIndex.selected S b.entries }

/-- The blocks that have records of selected names, with no other records. -/
def holding (S : Text → Bool) (blocks : List Block) : List Block :=
  (blocks.map (selected S)).filter fun b => b.entries ≠ []

/-- Taking records out does not move a block. -/
theorem newestFirst_map_selected (S : Text → Bool) (blocks : List Block) :
    newestFirst (blocks.map (selected S)) = (newestFirst blocks).map (selected S) := by
  have hoffset : ∀ a ∈ blocks, ∀ b ∈ blocks,
      isNewer a b = isNewer (selected S a) (selected S b) := fun _ _ _ _ => rfl
  exact (List.map_mergeSort hoffset).symm

/-- Blocks that are left out do not move the others. -/
theorem newestFirst_filter (p : Block → Bool) (blocks : List Block) :
    newestFirst (blocks.filter p) = (newestFirst blocks).filter p := by
  refine eq_of_descending (newestFirst_descending _) ?_ fun offset => ?_
  · exact (newestFirst_descending blocks).filter p
  · have hswap : ∀ bs : List Block, atOffset offset (bs.filter p) = (atOffset offset bs).filter p :=
      fun bs => List.filter_comm _ _ bs
    rw [atOffset_newestFirst, hswap, hswap, atOffset_newestFirst]

end Block

/-! ## The live view -/

namespace Fate

/-- A block without records of the name leaves its fate as it was. -/
theorem feed_nil {f : Fate} (hf : f.staged = none) : f.feed [] = f := by
  rw [feed_eq f hf]
  obtain ⟨committed, staged, deleted⟩ := f
  obtain rfl : staged = none := hf
  simp [survivor, anyDeleted]

end Fate

namespace Live

variable {S : Text → Bool} {s t : Live}

/-- The second view knows of the selected names what the first knows, and nothing of others. -/
def Projects (S : Text → Bool) (s t : Live) : Prop :=
  ∀ name, t.fate name = if S name then s.fate name else Fate.unknown

theorem projects_empty (S : Text → Bool) : Projects S empty empty := by
  intro name
  rw [fate_empty, ite_self]

theorem projects_add (h : Projects S s t) {e : Entry} (he : S e.name = true) :
    Projects S (s.add e) (t.add e) := by
  intro name
  rw [fate_add, fate_add]
  by_cases hn : e.name = name
  · rw [if_pos hn, if_pos hn, h name, ← hn, if_pos he, if_pos he]
  · rw [if_neg hn, if_neg hn, h name]

/-- An entry of another name is not missed. -/
theorem projects_add_left (h : Projects S s t) {e : Entry} (he : S e.name = false) :
    Projects S (s.add e) t := by
  intro name
  rw [fate_add, h name]
  by_cases hn : e.name = name
  · rw [← hn, he]
    rfl
  · rw [if_neg hn]

theorem projects_endBlock (h : Projects S s t) : Projects S s.endBlock t.endBlock := by
  intro name
  rw [fate_endBlock, fate_endBlock, h name]
  by_cases hs : S name = true
  · rw [if_pos hs, if_pos hs]
  · rw [if_neg hs, if_neg hs]
    rfl

theorem projects_foldl_add (h : Projects S s t) (records : List Entry) :
    Projects S (records.foldl add s) ((selected S records).foldl add t) := by
  induction records generalizing s t with
  | nil => exact h
  | cons e records ih =>
    by_cases he : S e.name = true
    · rw [selected, List.filter_cons_of_pos (by exact he)]
      exact ih (projects_add h he)
    · rw [selected, List.filter_cons_of_neg (by exact he)]
      exact ih (projects_add_left h (Bool.eq_false_iff.2 he))

theorem projects_feed (h : Projects S s t) (records : List Entry) :
    Projects S (s.feed records) (t.feed (selected S records)) :=
  projects_endBlock (projects_foldl_add h records)

theorem projects_foldl_feed (h : Projects S s t) (blocks : List (List Entry)) :
    Projects S (blocks.foldl feed s) ((blocks.map (selected S)).foldl feed t) := by
  induction blocks generalizing s t with
  | nil => exact h
  | cons records blocks ih => exact ih (projects_feed h records)

/-- The second view shows the selected entries of the first. -/
theorem entries_of_projects (h : Projects S s t) (hs : s.Inv) (ht : t.Inv) :
    t.entries = selected S s.entries := by
  have hcommitted : t.committed = s.committed.filter fun name _ => S name := by
    refine Std.ExtTreeMap.ext_getElem? fun name => ?_
    have hname : t.committed[name]? = if S name then s.committed[name]? else none := by
      rw [show t.committed[name]? = (t.fate name).committed from rfl, h name]
      split <;> rfl
    rw [Std.ExtTreeMap.getElem?_filter', hname]
    cases S name <;> cases s.committed[name]? <;> simp [Option.filter]
  have hkey : ∀ p ∈ s.committed.toList, S p.2.name = S p.1 := fun p hp => by
    rw [((hs.fate p.1).committed p.2 (Std.ExtTreeMap.mem_toList_iff_getElem?_eq_some.1 hp)).1]
  rw [entries_eq_sorted hs, entries_eq_sorted ht, sorted, sorted, hcommitted,
    Std.ExtTreeMap.toList_filter, selected, List.filter_map]
  exact congrArg _ (List.filter_congr fun p hp => (hkey p hp).symm)

theorem deletedNames_of_projects (h : Projects S s t) :
    t.deletedNames = s.deletedNames.filter S := by
  have hdeleted : t.deleted = s.deleted.filter S := by
    refine Std.ExtTreeSet.ext_mem fun name => ?_
    have hname : t.deleted.contains name = if S name then s.deleted.contains name else false := by
      rw [show t.deleted.contains name = (t.fate name).deleted from rfl, h name]
      split <;> rfl
    rw [Std.ExtTreeSet.mem_filter, Std.ExtTreeSet.mem_iff_contains, hname]
    cases hS : S name <;> simp [hS]
  rw [deletedNames, hdeleted, Std.ExtTreeSet.toList_filter]
  rfl

/-- Blocks without any records leave every fate as it was. -/
theorem fate_foldl_feed_filter {s : Live} (hs : s.staged = ∅) (blocks : List (List Entry))
    (name : Text) :
    ((blocks.filter fun records => records ≠ []).foldl feed s).fate name =
      (blocks.foldl feed s).fate name := by
  induction blocks generalizing s with
  | nil => rfl
  | cons records blocks ih =>
    by_cases hempty : records = []
    · have hsame : (s.feed records).fate name = s.fate name := by
        rw [fate_feed, hempty]
        exact Fate.feed_nil (staged_fate hs name)
      rw [List.filter_cons_of_neg (by simpa using hempty), ih hs, List.foldl_cons,
        fate_foldl_feed, fate_foldl_feed, hsame]
    · rw [List.filter_cons_of_pos (by simpa using hempty), List.foldl_cons, List.foldl_cons, ih rfl]

end Live

/-! ## Indexes -/

namespace Index

theorem feedingOrder_map_selected (S : Text → Bool) (blocks : List Block) (kind : Kind) :
    feedingOrder (blocks.map (Block.selected S)) kind =
      (feedingOrder blocks kind).map (Block.selected S) := by
  cases kind with
  | filtered => exact Block.newestFirst_map_selected S blocks
  | complete => rw [feedingOrder, feedingOrder, Block.newestFirst_map_selected, List.map_reverse]

theorem feedingOrder_filter (p : Block → Bool) (blocks : List Block) (kind : Kind) :
    feedingOrder (blocks.filter p) kind = (feedingOrder blocks kind).filter p := by
  cases kind with
  | filtered => exact Block.newestFirst_filter p blocks
  | complete => rw [feedingOrder, feedingOrder, Block.newestFirst_filter, List.filter_reverse]

variable {S : Text → Bool} {blocks : List Block} {kind : Kind} {index part : Index}

/-- Taking records out of the blocks takes them out of the index. -/
theorem shows_selected (h : (build kind blocks).result = .ok index)
    (hpart : (build kind (blocks.map (Block.selected S))).result = .ok part) :
    part.entries = selected S index.entries ∧
      part.deletedNames? = index.deletedNames?.map (List.filter S) := by
  cases kind with
  | complete =>
    rw [deletedNames_of_build_complete h, deletedNames_of_build_complete hpart,
      entries_of_build_complete h, entries_of_build_complete hpart, feedingOrder_map_selected,
      List.flatMap_map, selected, List.filter_flatMap]
    exact ⟨rfl, rfl⟩
  | filtered =>
    have hproj := Live.projects_foldl_feed (Live.projects_empty S)
      ((feedingOrder blocks .filtered).map (·.entries))
    rw [List.map_map] at hproj
    rw [deletedNames_of_build_filtered h, deletedNames_of_build_filtered hpart,
      entries_of_build_filtered h, entries_of_build_filtered hpart, feedingOrder_map_selected,
      List.map_map]
    constructor
    · exact Live.entries_of_projects hproj (Live.inv_foldl_feed Live.inv_empty _)
        (Live.inv_foldl_feed Live.inv_empty _)
    · exact congrArg some (Live.deletedNames_of_projects hproj)

/-- Blocks without records may be left out. -/
theorem shows_filter (h : (build kind blocks).result = .ok index)
    (hpart : (build kind (blocks.filter fun b => b.entries ≠ [])).result = .ok part) :
    part.entries = index.entries ∧ part.deletedNames? = index.deletedNames? := by
  cases kind with
  | complete =>
    have hflat : ∀ bs : List Block,
        (bs.filter fun b => b.entries ≠ []).flatMap (·.entries) = bs.flatMap (·.entries) := by
      intro bs
      induction bs with
      | nil => rfl
      | cons b bs ih => by_cases hb : b.entries = [] <;> simp_all
    rw [deletedNames_of_build_complete h, deletedNames_of_build_complete hpart,
      entries_of_build_complete h, entries_of_build_complete hpart, feedingOrder_filter, hflat]
    exact ⟨rfl, rfl⟩
  | filtered =>
    have hfate := Live.fate_foldl_feed_filter (s := .empty) rfl
      ((feedingOrder blocks .filtered).map (·.entries))
    rw [List.filter_map] at hfate
    rw [deletedNames_of_build_filtered h, deletedNames_of_build_filtered hpart,
      entries_of_build_filtered h, entries_of_build_filtered hpart, feedingOrder_filter]
    constructor
    · exact Live.entries_congr (Live.inv_foldl_feed Live.inv_empty _)
        (Live.inv_foldl_feed Live.inv_empty _) fun name => congrArg Fate.committed (hfate name)
    · exact congrArg some (Live.deletedNames_congr fun name => congrArg Fate.deleted (hfate name))

/-- An index of either kind can be built from blocks without footers. -/
theorem exists_build_of_footerless (h : ∀ b ∈ blocks, b.footer = none) (kind : Kind) :
    ∃ index, (build kind blocks).result = .ok index := by
  refine exists_build (fun b hb => ?_) kind
  rw [Block.mismatch?, h b hb]

theorem footer_of_mem_selected (h : ∀ b ∈ blocks, b.footer = none) (S : Text → Bool) :
    ∀ b ∈ blocks.map (Block.selected S), b.footer = none := by
  intro b hb
  obtain ⟨b', hb', rfl⟩ := List.mem_map.1 hb
  exact h b' hb'

/-- What an index shows of the selected names can be built from the blocks that have records of
them, with those records alone. -/
theorem exists_build_holding (h : ∀ b ∈ blocks, b.footer = none) (S : Text → Bool)
    (hindex : (build kind blocks).result = .ok index) :
    ∃ part, (build kind (Block.holding S blocks)).result = .ok part ∧
      part.entries = selected S index.entries ∧
        part.deletedNames? = index.deletedNames?.map (List.filter S) := by
  have hselected := footer_of_mem_selected h S
  obtain ⟨whole, hwhole⟩ := exists_build_of_footerless hselected kind
  obtain ⟨part, hpart⟩ : ∃ part, (build kind (Block.holding S blocks)).result = .ok part :=
    exists_build_of_footerless (fun b hb => hselected b (List.mem_filter.1 hb).1) kind
  obtain ⟨hentries, hdeleted⟩ := shows_selected hindex hwhole
  obtain ⟨hentries', hdeleted'⟩ := shows_filter hwhole hpart
  exact ⟨part, hpart, hentries'.trans hentries, hdeleted'.trans hdeleted⟩

/-- **Names do not interfere.** From blocks without footers an index of either kind can be built.

* When the records of all but some names are taken out of the blocks, the index shows the
  selected entries in the same order.
* What a pattern selects in the index is what the index shows that is built from the records
  which the pattern selects.
* Two lists of blocks that have the same records of the selected names, block for block but for
  blocks without any, show the same entries of these names and have deleted the same of them. -/
theorem build_of_selected {blocks : List Block} (h : ∀ b ∈ blocks, b.footer = none) (kind : Kind) :
    ∃ index, (build kind blocks).result = .ok index ∧
      (∀ S : Text → Bool, ∃ part,
        (build kind (blocks.map (Block.selected S))).result = .ok part ∧
          part.entries = index.entries.filter (fun e => S e.name) ∧
          part.deletedNames? = index.deletedNames?.map (List.filter S)) ∧
      (∀ pattern r, Glob.compile pattern = .ok r → ∃ part,
        (build kind (blocks.map (Block.selected r.selects))).result = .ok part ∧
          index.glob pattern = .ok part.entries) ∧
      ∀ (S : Text → Bool) (others : List Block), (∀ b ∈ others, b.footer = none) →
        Block.holding S others = Block.holding S blocks → ∃ other,
          (build kind others).result = .ok other ∧
            other.entries.filter (fun e => S e.name) = index.entries.filter (fun e => S e.name) ∧
            other.deletedNames?.map (List.filter S) = index.deletedNames?.map (List.filter S) := by
  obtain ⟨index, hindex⟩ := exists_build_of_footerless h kind
  have hselect : ∀ S : Text → Bool, ∃ part,
      (build kind (blocks.map (Block.selected S))).result = .ok part ∧
        part.entries = selected S index.entries ∧
          part.deletedNames? = index.deletedNames?.map (List.filter S) := by
    intro S
    obtain ⟨part, hpart⟩ := exists_build_of_footerless (footer_of_mem_selected h S) kind
    exact ⟨part, hpart, shows_selected hindex hpart⟩
  refine ⟨index, hindex, hselect, fun pattern r hr => ?_, fun S others hothers hsame => ?_⟩
  · obtain ⟨part, hpart, hentries, -⟩ := hselect r.selects
    refine ⟨part, hpart, ?_⟩
    rw [glob, hr, hentries]
    rfl
  · obtain ⟨other, hother⟩ := exists_build_of_footerless hothers kind
    obtain ⟨part, hpart, hentries, hdeleted⟩ := exists_build_holding h S hindex
    obtain ⟨part', hpart', hentries', hdeleted'⟩ := exists_build_holding hothers S hother
    obtain rfl : part' = part := by
      rw [hsame, hpart] at hpart'
      exact (Except.ok.inj hpart').symm
    exact ⟨other, hother, hentries'.symm.trans hentries, hdeleted'.symm.trans hdeleted⟩

/-- Blocks with a tie, one of which is left empty when only names under a folder are selected. -/
def crossed : List Block :=
  [⟨7, [bareEntry "src/a" 0 (by decide), bareEntry "notes" 1 (by decide)], none⟩,
    ⟨7, [bareEntry "src/a" 1 (by decide), bareEntry "src/b" 0 (by decide)], none⟩,
    ⟨3, [bareEntry "notes" 0 (by decide)], none⟩]

theorem build_of_selected_crossed :
    ∃ r index part, Glob.compile "src/*" = .ok r ∧ (build .filtered crossed).result = .ok index ∧
      (build .filtered (crossed.map (Block.selected r.selects))).result = .ok part ∧
        index.glob "src/*" = .ok part.entries := by
  obtain ⟨r, hr⟩ : ∃ r, Glob.compile "src/*" = .ok r := ⟨_, by cbv⟩
  have hnone : ∀ b ∈ crossed, b.footer = none := by decide
  obtain ⟨index, hindex, -, hglob, -⟩ := build_of_selected hnone .filtered
  obtain ⟨part, hpart, hselected⟩ := hglob "src/*" r hr
  exact ⟨r, index, part, hr, hindex, hpart, hselected⟩

end Index
end ArchiveIndex
