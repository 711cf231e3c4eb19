import Mathlib
import ArchiveIndex.Proofs.Index.Building

/-!
# The order of feeding

Blocks are given in any order and fed by their offsets. Sorting them is stable, so the blocks at
one offset keep their order from the newest to the oldest, and are reversed with all the rest
for the full history.

**Theorem (`build_of_rearranged`).** Two lists with the same blocks, those at each offset in the
same order, give the same index or the same mismatch, and the same log. The full history reads
the blocks by ascending offset, those at one offset in the reverse of the order in which they
were given.

A list of blocks is fixed by two things: that it descends, and what it has at each offset
(`eq_of_descending`). The sort has the first and keeps the second.
-/

namespace ArchiveIndex

namespace Block

/-- The blocks at an offset, in their order. -/
def atOffset (offset : Int) (blocks : List Block) : List Block :=
  blocks.filter fun b => b.offset = offset

@[simp] theorem mem_atOffset {offset : Int} {blocks : List Block} {b : Block} :
    b ∈ atOffset offset blocks ↔ b ∈ blocks ∧ b.offset = offset := by
  simp [atOffset]

/-- No block has a higher offset than one before it. -/
def Descending (blocks : List Block) : Prop := blocks.Pairwise fun a b => b.offset ≤ a.offset

/-! ## The sort -/

theorem isNewer_trans (a b c : Block) (hab : isNewer a b = true) (hbc : isNewer b c = true) :
    isNewer a c = true := by
  simp only [isNewer, decide_eq_true_eq] at *
  omega

theorem isNewer_total (a b : Block) : (isNewer a b || isNewer b a) = true := by
  simp only [isNewer, Bool.or_eq_true, decide_eq_true_eq]
  omega

theorem newestFirst_perm (blocks : List Block) : (newestFirst blocks).Perm blocks :=
  List.mergeSort_perm blocks isNewer

theorem newestFirst_descending (blocks : List Block) : Descending (newestFirst blocks) :=
  (List.pairwise_mergeSort isNewer_trans isNewer_total blocks).imp fun h => by
    simpa [isNewer] using h

/-- Sorting leaves the blocks at one offset as they were. -/
theorem atOffset_newestFirst (offset : Int) (blocks : List Block) :
    atOffset offset (newestFirst blocks) = atOffset offset blocks := by
  -- Blocks at one offset are sorted as they stand, so they stay a sublist of the sorted list.
  have hsorted : (atOffset offset blocks).Pairwise fun a b => isNewer a b = true := by
    refine List.pairwise_of_forall_mem_list fun a ha b hb => ?_
    simp [isNewer, (mem_atOffset.1 ha).2, (mem_atOffset.1 hb).2]
  have hsub : (atOffset offset blocks).Sublist (newestFirst blocks) :=
    List.sublist_mergeSort isNewer_trans isNewer_total hsorted List.filter_sublist
  have hsub' : (atOffset offset blocks).Sublist (atOffset offset (newestFirst blocks)) := by
    have h := hsub.filter fun b => decide (b.offset = offset)
    simpa only [atOffset, List.filter_filter, Bool.and_self] using h
  exact (hsub'.eq_of_length ((newestFirst_perm blocks).filter _).length_eq.symm).symm

/-! ## What fixes a descending list -/

theorem mem_iff_of_atOffset {xs ys : List Block}
    (h : ∀ offset, atOffset offset xs = atOffset offset ys) (b : Block) : b ∈ xs ↔ b ∈ ys := by
  have hb : b ∈ atOffset b.offset xs ↔ b ∈ atOffset b.offset ys := by rw [h]
  simpa using hb

/-- Two descending lists with the same blocks at each offset are equal. -/
theorem eq_of_descending {xs ys : List Block} (hx : Descending xs) (hy : Descending ys)
    (h : ∀ offset, atOffset offset xs = atOffset offset ys) : xs = ys := by
  have hmem := mem_iff_of_atOffset h
  induction xs generalizing ys with
  | nil => exact (List.eq_nil_iff_forall_not_mem.2 fun b hb => by simpa using (hmem b).2 hb).symm
  | cons x xs ih =>
    cases ys with
    | nil => simpa using (hmem x).1 List.mem_cons_self
    | cons y ys =>
      -- Both heads have the highest offset, so both are the first block there.
      have hoff : x.offset = y.offset := by
        have hyx : y.offset ≤ x.offset := by
          rcases List.mem_cons.1 ((hmem y).2 List.mem_cons_self) with rfl | hm
          · exact le_rfl
          · exact (List.pairwise_cons.1 hx).1 y hm
        have hxy : x.offset ≤ y.offset := by
          rcases List.mem_cons.1 ((hmem x).1 List.mem_cons_self) with rfl | hm
          · exact le_rfl
          · exact (List.pairwise_cons.1 hy).1 x hm
        exact le_antisymm hxy hyx
      obtain rfl : x = y := by
        have hhead := h x.offset
        simp only [atOffset, List.filter_cons, hoff, decide_true, if_true] at hhead
        exact (List.cons.inj hhead).1
      have htail : ∀ offset, atOffset offset xs = atOffset offset ys := fun offset => by
        have ho := h offset
        simp only [atOffset, List.filter_cons] at ho ⊢
        split at ho
        · exact (List.cons.inj ho).2
        · exact ho
      rw [ih (List.pairwise_cons.1 hx).2 (List.pairwise_cons.1 hy).2 htail
        (mem_iff_of_atOffset htail)]

/-! ## Rearranging -/

/-- Two lists have the same blocks, and those at each offset in the same order. -/
structure Rearranged (xs ys : List Block) : Prop where
  perm : xs.Perm ys
  atOffset : ∀ offset, atOffset offset xs = atOffset offset ys

theorem newestFirst_eq_of_rearranged {xs ys : List Block} (h : Rearranged xs ys) :
    newestFirst xs = newestFirst ys :=
  eq_of_descending (newestFirst_descending xs) (newestFirst_descending ys) fun offset => by
    rw [atOffset_newestFirst, atOffset_newestFirst, h.atOffset]

end Block

namespace Index

theorem feedingOrder_perm (blocks : List Block) (kind : Kind) :
    (feedingOrder blocks kind).Perm blocks := by
  cases kind with
  | complete => exact (List.reverse_perm _).trans (Block.newestFirst_perm blocks)
  | filtered => exact Block.newestFirst_perm blocks

/-- An index of either kind can be built from blocks without a mismatch. -/
theorem exists_build {blocks : List Block} (h : ∀ b ∈ blocks, b.mismatch? = none) (kind : Kind) :
    ∃ index, (build kind blocks).result = .ok index := by
  have hnone : (feedingOrder blocks kind).findSome? Block.mismatch? = none :=
    List.findSome?_eq_none_iff.2 fun b hb => h b ((feedingOrder_perm blocks kind).mem_iff.1 hb)
  rw [build_result, hnone]
  exact ⟨_, rfl⟩

theorem build_eq_of_rearranged {xs ys : List Block} (h : Block.Rearranged xs ys) (kind : Kind) :
    build kind xs = build kind ys := by
  have hfeed : feedingOrder xs kind = feedingOrder ys kind := by
    cases kind <;> simp only [feedingOrder, Block.newestFirst_eq_of_rearranged h]
  unfold build
  rw [hfeed, h.perm.length_eq]

/-- The full history reads the blocks in the order of their writing. -/
theorem exists_written_order {blocks : List Block} {index : Index}
    (h : (build .complete blocks).result = .ok index) :
    ∃ written : List Block,
      written.Perm blocks ∧
        written.Pairwise (fun a b => a.offset ≤ b.offset) ∧
        (∀ offset, Block.atOffset offset written = (Block.atOffset offset blocks).reverse) ∧
        index.entries = written.flatMap (·.entries) := by
  refine ⟨(Block.newestFirst blocks).reverse, ?_, ?_, fun offset => ?_, ?_⟩
  · exact (List.reverse_perm _).trans (Block.newestFirst_perm blocks)
  · exact List.pairwise_reverse.2 (Block.newestFirst_descending blocks)
  · rw [Block.atOffset, List.filter_reverse, ← Block.atOffset_newestFirst]
    rfl
  · exact entries_of_build_complete h

/-- **Building does not depend on the order of the blocks**, as long as blocks at one offset
keep theirs: the result, be it an index or a mismatch, and the log are the same. The full
history is made of the blocks by ascending offset, and of those at one offset in reverse. -/
theorem build_of_rearranged :
    (∀ (kind : Kind) (xs ys : List Block),
      Block.Rearranged xs ys → build kind xs = build kind ys) ∧
    ∀ (blocks : List Block) (index : Index), (build .complete blocks).result = .ok index →
      ∃ written : List Block,
        written.Perm blocks ∧
          written.Pairwise (fun a b => a.offset ≤ b.offset) ∧
          (∀ offset, Block.atOffset offset written = (Block.atOffset offset blocks).reverse) ∧
          index.entries = written.flatMap (·.entries) :=
  ⟨fun kind _ _ h => build_eq_of_rearranged h kind, fun _ _ h => exists_written_order h⟩

/-- An entry with nothing but a name and a flag. -/
def bareEntry (name : Text) (flag : Int) (name_ne : name ≠ []) : Entry :=
  ⟨⟨name, 0, 0, flag, name_ne⟩, 0, 0, 0, 0⟩

/-- Blocks with a tie: the first deletes a name and writes it again, the last has only
written it. -/
def tied : List Block :=
  [⟨7, [bareEntry "a" 1 (by decide), bareEntry "a" 0 (by decide)], some ⟨2, 0, 0, 0⟩⟩,
    ⟨9, [bareEntry "b" 0 (by decide)], none⟩,
    ⟨7, [bareEntry "a" 0 (by decide)], none⟩]

/-- The same blocks, the tie undisturbed. -/
def tiedAside : List Block :=
  [⟨7, [bareEntry "a" 1 (by decide), bareEntry "a" 0 (by decide)], some ⟨2, 0, 0, 0⟩⟩,
    ⟨7, [bareEntry "a" 0 (by decide)], none⟩,
    ⟨9, [bareEntry "b" 0 (by decide)], none⟩]

theorem build_of_rearranged_tied :
    Block.Rearranged tied tiedAside ∧ build .filtered tied = build .filtered tiedAside ∧
      ∃ (index : Index) (written : List Block), (build .complete tied).result = .ok index ∧
        written.Perm tied ∧ written.Pairwise (fun a b => a.offset ≤ b.offset) ∧
        index.entries = written.flatMap (·.entries) := by
  have hr : Block.Rearranged tied tiedAside := by
    refine ⟨by decide, fun offset => ?_⟩
    by_cases h₇ : (7 : Int) = offset <;> by_cases h₉ : (9 : Int) = offset <;>
      simp [Block.atOffset, tied, tiedAside, h₇, h₉]
    omega
  have hb : ∃ index, (build .complete tied).result = .ok index := ⟨_, by cbv⟩
  obtain ⟨index, hb⟩ := hb
  obtain ⟨written, hperm, hasc, -, hentries⟩ := build_of_rearranged.2 tied index hb
  exact ⟨hr, build_of_rearranged.1 .filtered tied tiedAside hr,
    index, written, hb, hperm, hasc, hentries⟩

end Index
end ArchiveIndex
