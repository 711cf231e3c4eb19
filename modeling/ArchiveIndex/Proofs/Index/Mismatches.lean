import ArchiveIndex.Proofs.Index.FeedingOrder

/-!
# Which mismatch is reported

Building an index stops at the first block whose footer is wrong, and that is the first in the
feeding order and not among the blocks as they were given.

**Theorem (`build_error_iff`).** An index of either kind is built unless the footer of some block
declares another number of entries than the block has. Of the blocks with such a footer the live
view reports one at the highest offset, the first of those there, and the full history one at the
lowest offset, the last of those there.

The first block with a mismatch in a list that is sorted by offsets, in whichever direction, is
found in two steps: no block with a mismatch lies before its offset, and it is the first at its
offset (`find?_eq_some_iff_atOffset`). What is at an offset the sort leaves as it was, and the full
history has it reversed.
-/

namespace ArchiveIndex

namespace Block

/-- The footer declares another number of entries than the block has. -/
def Mismatched (b : Block) : Prop := ∃ f, b.footer = some f ∧ f.entryCount ≠ b.entries.length

theorem mismatch?_isSome_iff {b : Block} : b.mismatch?.isSome = true ↔ b.Mismatched := by
  simp [Option.isSome_iff_exists, mismatch?_eq_some_iff, Mismatched]

instance (b : Block) : Decidable b.Mismatched := decidable_of_iff _ mismatch?_isSome_iff

/-- The blocks at an offset whose footers are wrong, in their order. -/
def mismatchedAt (offset : Int) (blocks : List Block) : List Block :=
  (atOffset offset blocks).filter fun b => b.Mismatched

/-- Among the blocks whose footers are wrong, this one is met first by an index of the kind. -/
def MetFirst (blocks : List Block) (b : Block) : Kind → Prop
  | .filtered => (∀ a ∈ blocks, a.Mismatched → a.offset ≤ b.offset) ∧
      (mismatchedAt b.offset blocks).head? = some b
  | .complete => (∀ a ∈ blocks, a.Mismatched → b.offset ≤ a.offset) ∧
      (mismatchedAt b.offset blocks).getLast? = some b

theorem mem_of_metFirst {blocks : List Block} {b : Block} {kind : Kind}
    (h : MetFirst blocks b kind) : b ∈ blocks := by
  have hat : b ∈ mismatchedAt b.offset blocks := by
    cases kind with
    | filtered => exact List.mem_of_head? h.2
    | complete => exact List.mem_of_getLast? h.2
  exact (mem_atOffset.1 (List.mem_filter.1 hat).1).1

/-! ## The first in a sorted list -/

/-- A block found in a list has no other of the sort before it, nor at its own offset. -/
theorem of_find?_eq_some {R : Int → Int → Prop} (hrefl : ∀ i, R i i) {blocks : List Block}
    (hsorted : blocks.Pairwise fun a b => R a.offset b.offset) {p : Block → Bool} {b : Block}
    (h : blocks.find? p = some b) :
    (∀ a ∈ blocks, p a = true → R b.offset a.offset) ∧
      ((atOffset b.offset blocks).filter p).head? = some b := by
  obtain ⟨hb, before, after, rfl, hbefore⟩ := List.find?_eq_some_iff_append.1 h
  refine ⟨fun a ha hp => ?_, ?_⟩
  · rcases List.mem_append.1 ha with ha | ha
    · simpa [hp] using hbefore a ha
    · rcases List.mem_cons.1 ha with rfl | ha
      · exact hrefl a.offset
      · exact (List.pairwise_cons.1 (List.pairwise_append.1 hsorted).2.1).1 a ha
  · have hnone : (atOffset b.offset before).filter p = [] := by
      refine List.filter_eq_nil_iff.2 fun a ha hp => ?_
      simpa [hp] using hbefore a (mem_atOffset.1 ha).1
    have hsplit : atOffset b.offset (before ++ b :: after) =
        atOffset b.offset before ++ b :: atOffset b.offset after := by
      simp [atOffset]
    rw [hsplit, List.filter_append, hnone, List.nil_append, List.filter_cons_of_pos hb,
      List.head?_cons]

/-- In a list sorted by offsets, the first of a sort is the first at the first offset that has
any. -/
theorem find?_eq_some_iff_atOffset {R : Int → Int → Prop} (hrefl : ∀ i, R i i)
    (hanti : ∀ i j, R i j → R j i → i = j) {blocks : List Block}
    (hsorted : blocks.Pairwise fun a b => R a.offset b.offset) (p : Block → Bool) (b : Block) :
    blocks.find? p = some b ↔
      (∀ a ∈ blocks, p a = true → R b.offset a.offset) ∧
        ((atOffset b.offset blocks).filter p).head? = some b := by
  refine ⟨of_find?_eq_some hrefl hsorted, fun h => ?_⟩
  obtain ⟨hlowest, hfirst⟩ := h
  obtain ⟨hat, hb⟩ := List.mem_filter.1 (List.mem_of_head? hfirst)
  have hmem : b ∈ blocks := (mem_atOffset.1 hat).1
  obtain ⟨found, hfound⟩ := Option.isSome_iff_exists.1 (List.find?_isSome.2 ⟨b, hmem, hb⟩)
  obtain ⟨hlowest', hfirst'⟩ := of_find?_eq_some hrefl hsorted hfound
  -- Neither offset is before the other, and there is one first block at an offset.
  have hoffset : b.offset = found.offset :=
    hanti _ _ (hlowest found (List.mem_of_find?_eq_some hfound) (List.find?_some hfound))
      (hlowest' b hmem hb)
  rw [← hoffset, hfirst] at hfirst'
  rw [hfound, Option.some.inj hfirst']

/-- The first mismatch is that of the first block with a wrong footer. -/
theorem findSome?_mismatch_eq_some_iff {blocks : List Block} {m : CountMismatch} :
    blocks.findSome? mismatch? = some m ↔
      ∃ b, blocks.find? (fun b => b.Mismatched) = some b ∧ b.mismatch? = some m := by
  rw [List.findSome?_eq_some_iff]
  constructor
  · intro ⟨before, b, after, hsplit, hm, hbefore⟩
    refine ⟨b, List.find?_eq_some_iff_append.2 ⟨?_, before, after, hsplit, fun a ha => ?_⟩, hm⟩
    · rw [decide_eq_true_eq, ← mismatch?_isSome_iff, hm, Option.isSome_some]
    · rw [Bool.not_eq_true', decide_eq_false_iff_not, ← mismatch?_isSome_iff, hbefore a ha]
      exact Bool.noConfusion
  · intro ⟨b, hfound, hm⟩
    obtain ⟨-, before, after, hsplit, hbefore⟩ := List.find?_eq_some_iff_append.1 hfound
    refine ⟨before, b, after, hsplit, hm, fun a ha => ?_⟩
    have hright : ¬ a.Mismatched := by simpa using hbefore a ha
    rw [← mismatch?_isSome_iff] at hright
    simpa using hright

end Block

namespace Index

/-- Of the blocks with a wrong footer, the feeding order has the one first that the kind meets
first. -/
theorem find?_feedingOrder (kind : Kind) (blocks : List Block) (b : Block) :
    (feedingOrder blocks kind).find? (fun b => b.Mismatched) = some b ↔
      Block.MetFirst blocks b kind := by
  have hmem : ∀ a, a ∈ feedingOrder blocks kind ↔ a ∈ blocks := fun a =>
    (feedingOrder_perm blocks kind).mem_iff
  cases kind with
  | filtered =>
    have hsorted : (feedingOrder blocks .filtered).Pairwise fun a b => b.offset ≤ a.offset :=
      Block.newestFirst_descending blocks
    rw [Block.find?_eq_some_iff_atOffset (R := fun i j => j ≤ i) le_refl
      (fun i j hji hij => le_antisymm hij hji) hsorted]
    simp only [hmem, decide_eq_true_eq]
    rw [feedingOrder, Block.atOffset_newestFirst]
    rfl
  | complete =>
    have hsorted : (feedingOrder blocks .complete).Pairwise fun a b => a.offset ≤ b.offset :=
      List.pairwise_reverse.2 (Block.newestFirst_descending blocks)
    rw [Block.find?_eq_some_iff_atOffset (R := fun i j => i ≤ j) le_refl
      (fun i j hij hji => le_antisymm hij hji) hsorted]
    simp only [hmem, decide_eq_true_eq]
    -- What is at an offset is reversed with all the rest, so its last block comes first.
    have hat : Block.atOffset b.offset (feedingOrder blocks .complete) =
        (Block.atOffset b.offset blocks).reverse := by
      rw [feedingOrder, Block.atOffset, List.filter_reverse, ← Block.atOffset_newestFirst]
      rfl
    rw [hat, List.filter_reverse, List.head?_reverse]
    rfl

theorem build_eq_error_iff_findSome? {kind : Kind} {blocks : List Block} {m : CountMismatch} :
    (build kind blocks).result = .error m ↔
      (feedingOrder blocks kind).findSome? Block.mismatch? = some m := by
  rw [build_result]
  cases (feedingOrder blocks kind).findSome? Block.mismatch? with
  | none => simp
  | some m' => simp

/-- Building fails with a mismatch exactly if that is the one met first. -/
theorem build_eq_error_iff {kind : Kind} {blocks : List Block} {m : CountMismatch} :
    (build kind blocks).result = .error m ↔
      ∃ b, Block.MetFirst blocks b kind ∧ b.mismatch? = some m := by
  rw [build_eq_error_iff_findSome?, Block.findSome?_mismatch_eq_some_iff]
  exact exists_congr fun b => and_congr_left fun _ => find?_feedingOrder kind blocks b

/-- Building fails exactly if the footer of some block is wrong. -/
theorem exists_build_error_iff {kind : Kind} {blocks : List Block} :
    (∃ m, (build kind blocks).result = .error m) ↔ ∃ b ∈ blocks, b.Mismatched := by
  simp only [build_eq_error_iff_findSome?]
  rw [← Option.isSome_iff_exists, List.findSome?_isSome_iff]
  simp only [Block.mismatch?_isSome_iff, (feedingOrder_perm blocks kind).mem_iff]

/-- **The mismatch that is reported.** Both kinds of index are known by their names, so nothing but
a mismatch keeps one from being built, and this happens exactly if some block has a footer that
declares another number of entries than the block has. The error names the offset, the declared
and the actual number of the block with such a footer that is met first: for the live view the
first one at the highest offset where there is any, for the full history the last one at the
lowest. -/
theorem build_error_iff (kind : Kind) (blocks : List Block) :
    Kind.ofValue (.ofString kind.name) = .ok kind ∧
      ((∃ m, (build kind blocks).result = .error m) ↔
        ∃ b ∈ blocks, ∃ f, b.footer = some f ∧ f.entryCount ≠ b.entries.length) ∧
      ∀ m, (build kind blocks).result = .error m ↔
        ∃ b f, b ∈ blocks ∧ b.footer = some f ∧ f.entryCount ≠ b.entries.length ∧
          Block.MetFirst blocks b kind ∧ m = ⟨b.offset, f.entryCount, b.entries.length⟩ := by
  refine ⟨by cases kind <;> rfl, exists_build_error_iff, fun m => ?_⟩
  rw [build_eq_error_iff]
  constructor
  · rintro ⟨b, hfirst, hm⟩
    obtain ⟨f, hf, hcount, rfl⟩ := Block.mismatch?_eq_some_iff.1 hm
    exact ⟨b, f, Block.mem_of_metFirst hfirst, hf, hcount, hfirst, rfl⟩
  · rintro ⟨b, f, -, hf, hcount, hfirst, hm⟩
    exact ⟨b, hfirst, Block.mismatch?_eq_some_iff.2 ⟨f, hf, hcount, hm⟩⟩

/-- Of two blocks at one offset the kinds report different ones. -/
example :
    let blocks : List Block := [⟨5, [], some ⟨1, 0, 0, 0⟩⟩, ⟨5, [], some ⟨2, 0, 0, 0⟩⟩]
    (build .filtered blocks).result = .error ⟨5, 1, 0⟩ ∧
      (build .complete blocks).result = .error ⟨5, 2, 0⟩ :=
  ⟨by cbv, by cbv⟩

end Index
end ArchiveIndex
