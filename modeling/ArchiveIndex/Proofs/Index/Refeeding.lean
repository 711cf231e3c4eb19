import ArchiveIndex.Proofs.Index.FeedingOrder
import ArchiveIndex.Proofs.Index.Runs

/-!
# Feeding a block again

A block that has been fed has nothing more to say.

**Theorem (`refeeding_unseen`).** Feed a block a second time, when no entry is waiting for the end
of its block. However much was done since the first time, no answer of the index changes from then
on. In particular a block may stand twice among the blocks that an index is fed.

What the first time leaves behind is that every name of the block is *settled* (`Live.Settled`):
something is committed for it or it is deleted for good, and the deletions of the block have been
noted. No later step undoes this, whatever it does to the name, and a block whose names are settled
finds nothing to commit and nothing to delete.
-/

namespace ArchiveIndex

namespace Fate

/-- The name is decided if there are records of it, and deleted if they delete it. -/
structure Settled (records : List Entry) (f : Fate) : Prop where
  decided : records ≠ [] → f.committed ≠ none ∨ f.deleted = true
  deleted : anyDeleted records = true → f.deleted = true

variable {f : Fate} {records : List Entry}

/-- A block settles its names, also if entries were waiting when it began. -/
theorem settled_feed (h : f.deleted = true → f.staged = none) (records : List Entry) :
    Settled records (f.feed records) := by
  unfold feed
  rw [foldl_add f h]
  refine ⟨fun hne => ?_, fun hd => ?_⟩
  · cases hd : f.deleted || anyDeleted records with
    | true => exact .inr rfl
    | false =>
      left
      have hlast : records.getLast?.or f.staged ≠ none := by
        rw [List.getLast?_eq_some_getLast hne]
        simp
      simpa [endBlock] using fun _ => hlast
  · show (f.deleted || anyDeleted records) = true
    rw [hd, Bool.or_true]

theorem settled_add (h : Settled records f) (e : Entry) : Settled records (f.add e) := by
  unfold add
  by_cases he : e.isDeleted = true
  · rw [if_pos he]
    exact ⟨fun _ => .inr rfl, fun _ => rfl⟩
  · rw [if_neg he]
    by_cases hf : f.deleted = true
    · rw [if_pos hf]
      exact h
    · rw [if_neg hf]
      exact ⟨h.decided, h.deleted⟩

theorem settled_endBlock (h : Settled records f) : Settled records f.endBlock := by
  refine ⟨fun hne => ?_, h.deleted⟩
  rcases h.decided hne with hc | hd
  · left
    simp [endBlock, hc]
  · exact .inr hd

/-- A block whose records of the name are settled does not move its fate. -/
theorem feed_of_settled (h : Settled records f) (hf : f.staged = none) : f.feed records = f := by
  rw [feed_eq f hf]
  obtain ⟨committed, staged, deleted⟩ := f
  obtain rfl : staged = none := hf
  have hdeleted : (deleted || anyDeleted records) = deleted := by
    cases hd : anyDeleted records with
    | true => rw [show deleted = true from h.deleted hd, Bool.or_true]
    | false => rw [Bool.or_false]
  have hcommitted : committed.or (if deleted then none else survivor records) = committed := by
    by_cases hne : records = []
    · rw [hne]
      simp [survivor, anyDeleted]
    · rcases h.decided hne with hc | hd
      · obtain ⟨e, rfl⟩ := Option.ne_none_iff_exists'.1 hc
        rfl
      · rw [if_pos (by exact hd), Option.or_none]
  rw [hdeleted, hcommitted]

end Fate

namespace Live

variable {s t : Live} {records : List Entry}

/-- Every name is settled as to the records. -/
def Settled (records : List Entry) (s : Live) : Prop :=
  ∀ name, (s.fate name).Settled (recordsOf name records)

theorem settled_feed (hs : s.Inv) (records : List Entry) : Settled records (s.feed records) := by
  intro name
  rw [fate_feed]
  exact Fate.settled_feed (hs.fate name).not_deleted _

theorem settled_add (h : Settled records s) (e : Entry) : Settled records (s.add e) := by
  intro name
  rw [fate_add]
  by_cases hn : e.name = name
  · rw [if_pos hn]
    exact Fate.settled_add (h name) e
  · rw [if_neg hn]
    exact h name

theorem settled_endBlock (h : Settled records s) : Settled records s.endBlock := by
  intro name
  rw [fate_endBlock]
  exact Fate.settled_endBlock (h name)

theorem settled_refresh (h : Settled records s) : Settled records s.refresh := h

/-- What is fed after a block does not unsettle its names. -/
theorem settled_foldl_feed (h : Settled records s) (blocks : List (List Entry)) :
    Settled records (blocks.foldl feed s) := by
  refine List.foldlRecOn blocks feed h fun t ht added _ => settled_endBlock ?_
  exact List.foldlRecOn added add ht fun _ hu e _ => settled_add hu e

/-- Between two blocks a block that is settled changes nothing that is known of any name. -/
theorem fate_feed_of_settled (h : Settled records s) (hstaged : s.staged = ∅) (name : Text) :
    (s.feed records).fate name = s.fate name := by
  rw [fate_feed]
  exact Fate.feed_of_settled (h name) (staged_fate hstaged name)

/-- Feeding a block again later leaves every name as it would be. -/
theorem fate_refeed (hs : s.Inv) (records : List Entry) (between later : List (List Entry))
    (name : Text) :
    ((records :: (between ++ records :: later)).foldl feed s).fate name =
      ((records :: (between ++ later)).foldl feed s).fate name := by
  have hsettled : Settled records (between.foldl feed (s.feed records)) :=
    settled_foldl_feed (settled_feed hs records) between
  have hagain := fate_feed_of_settled hsettled (staged_foldl_feed rfl between) name
  simp only [List.foldl_cons, List.foldl_append]
  rw [fate_foldl_feed, fate_foldl_feed, hagain]

/-- Apart from the entries that it keeps sorted, a view is what it knows of the names. -/
theorem forget_eq_of_fate (h : ∀ name, t.fate name = s.fate name) : t.forget = s.forget := by
  have hcommitted : t.committed = s.committed :=
    Std.ExtTreeMap.ext_getElem? fun name => congrArg Fate.committed (h name)
  have hstaged : t.staged = s.staged :=
    Std.ExtTreeMap.ext_getElem? fun name => congrArg Fate.staged (h name)
  have hdeleted : t.deleted = s.deleted :=
    Std.ExtTreeSet.ext_contains fun name => congrArg Fate.deleted (h name)
  rw [forget, forget, hcommitted, hstaged, hdeleted]

end Live

/-! ## Feeding again -/

namespace Index

/-- A mismatch is met the first time. -/
theorem findSome?_mismatch_refed (earlier between later : List Block) (b : Block) :
    (earlier ++ b :: (between ++ b :: later)).findSome? Block.mismatch? =
      (earlier ++ b :: (between ++ later)).findSome? Block.mismatch? := by
  simp only [List.findSome?_append, List.findSome?_cons]
  cases b.mismatch? <;> rfl

/-- Feeding a block again later leads to what is shown without it. -/
theorem feedAll_refed (earlier between later : List Block) (b : Block) :
    (feedAll (empty .filtered) (earlier ++ b :: (between ++ b :: later))).2.map
        (fun index => (index.entries, index.deletedNames?)) =
      (feedAll (empty .filtered) (earlier ++ b :: (between ++ later))).2.map
        (fun index => (index.entries, index.deletedNames?)) := by
  rw [feedAll_snd, feedAll_snd, findSome?_mismatch_refed]
  cases (earlier ++ b :: (between ++ later)).findSome? Block.mismatch? with
  | some m => rfl
  | none =>
    have hinv : ∀ blocks : List (List Entry), (blocks.foldl Live.feed .empty).Inv :=
      Live.inv_foldl_feed Live.inv_empty
    have hfate := Live.fate_refeed (hinv (earlier.map (·.entries))) b.entries
      (between.map (·.entries)) (later.map (·.entries))
    simp only [← List.foldl_append] at hfate
    simp only [empty, foldl_addBlock_filtered, List.map_append, List.map_cons, Except.map]
    refine congrArg Except.ok (Prod.ext ?_ ?_)
    · exact Live.entries_congr (hinv _) (hinv _) fun name => congrArg Fate.committed (hfate name)
    · exact congrArg some (Live.deletedNames_congr fun name => congrArg Fate.deleted (hfate name))

end Index

namespace Engine

variable {b : Block} {live : Live} {c : Client Index}

theorem act_feed (hmatch : b.mismatch? = none) (hindex : c.index = .filtered live) :
    keeping.act c (.update (.feed b)) =
      (.done, { c with index := .filtered (live.feed b.entries) }) := by
  have hfeed : keeping.feed c.index b = .ok (.filtered (live.feed b.entries)) := by
    rw [feed_keeping, Index.feed_eq, hmatch, hindex, Index.addBlock_filtered]
  rw [act, update, hfeed]

theorem act_feed_mismatch {m : CountMismatch} (hmatch : b.mismatch? = some m) (c : Client Index) :
    keeping.act c (.update (.feed b)) = (.mismatch m, c) := by
  have hfeed : keeping.feed c.index b = .error m := by
    rw [feed_keeping, Index.feed_eq, hmatch]
  rw [act, update, hfeed]

/-- After a run in which a block was fed its names are settled. -/
theorem shows_settled_run {acts : List Act} (hfed : Act.update (.feed b) ∈ acts)
    (hmatch : b.mismatch? = none) :
    Shows (fun live => live.Inv ∧ live.Settled b.entries)
      (keeping.run keeping.start acts).2.index := by
  obtain ⟨earlier, later, rfl⟩ := List.append_of_mem hfed
  obtain ⟨live, hindex, hinv⟩ := shows_inv_run earlier
  have hkeeps : Keeps keeping (Shows fun live => live.Inv ∧ live.Settled b.entries) :=
    keeps_shows (fun h e => ⟨Live.inv_add h.1 e, Live.settled_add h.2 e⟩)
      (fun h => ⟨Live.inv_endBlock h.1, Live.settled_endBlock h.2⟩)
      (fun h => ⟨Live.inv_refresh h.1, Live.settled_refresh h.2⟩)
  rw [run_append, run, act_feed hmatch hindex]
  refine hkeeps.run ?_ later
  exact ⟨live.feed b.entries, rfl, Live.inv_feed hinv _, Live.settled_feed hinv _⟩

/-- Two filtered indexes that know the same of all names answer alike from then on. -/
theorem run_eq_of_forget {c d : Client Index} {s t : Live} (hlists : d.lists = c.lists)
    (hc : c.index = .filtered s) (hd : d.index = .filtered t) (hs : s.Inv) (ht : t.Inv)
    (h : t.forget = s.forget) (acts : List Act) :
    (keeping.run d acts).1 = (keeping.run c acts).1 := by
  let plain : Client Uncached := ⟨s.forget, c.lists⟩
  calc (keeping.run d acts).1
      = (uncached.run plain acts).1 :=
        (simulates_uncached.run (d := plain) ⟨t, hd, ht, h.symm⟩ hlists acts).1
    _ = (keeping.run c acts).1 :=
        (simulates_uncached.run (d := plain) ⟨s, hc, hs, rfl⟩ rfl acts).1.symm

/-- **A block that is fed again is not noticed.**

* If a block was fed in a run and nothing is staged now, feeding it again changes neither the
  entries shown nor the deleted names, nor any answer to what is done later. A block that was
  refused is refused again.
* Blocks in turn, one of them a second time anywhere after the first, lead to the same entries and
  the same deleted names as without it, or to the same mismatch. -/
theorem refeeding_unseen :
    (∀ (acts : List Act) (b : Block) (live : Live), Act.update (.feed b) ∈ acts →
      (keeping.run keeping.start acts).2.index = .filtered live → live.staged = ∅ →
        ∃ answer again,
          keeping.act (keeping.run keeping.start acts).2 (.update (.feed b)) = (answer, again) ∧
          (b.mismatch? = none → answer = .done) ∧
          again.index.entries = live.entries ∧
          again.index.deletedNames? = some live.deletedNames ∧
          ∀ later, (keeping.run again later).1 =
            (keeping.run (keeping.run keeping.start acts).2 later).1) ∧
    ∀ (earlier between later : List Block) (b : Block),
      (Index.feedAll (.empty .filtered) (earlier ++ b :: (between ++ b :: later))).2.map
          (fun index => (index.entries, index.deletedNames?)) =
        (Index.feedAll (.empty .filtered) (earlier ++ b :: (between ++ later))).2.map
          (fun index => (index.entries, index.deletedNames?)) := by
  refine ⟨fun acts b live hfed hindex hstaged => ?_, Index.feedAll_refed⟩
  cases hmatch : b.mismatch? with
  | some m =>
    refine ⟨.mismatch m, _, act_feed_mismatch hmatch _, by simp, ?_, ?_, fun later => rfl⟩
    · rw [hindex]
      rfl
    · rw [hindex]
      rfl
  | none =>
    obtain ⟨live', hindex', hinv, hsettled⟩ := shows_settled_run hfed hmatch
    obtain rfl : live = live' := Index.filtered.inj (hindex.symm.trans hindex')
    have hfate := Live.fate_feed_of_settled hsettled hstaged
    have hinv' := Live.inv_feed hinv b.entries
    refine ⟨.done, _, act_feed hmatch hindex, fun _ => rfl, ?_, ?_, ?_⟩
    · exact Live.entries_congr hinv hinv' fun name => congrArg Fate.committed (hfate name)
    · exact congrArg some (Live.deletedNames_congr fun name => congrArg Fate.deleted (hfate name))
    · exact run_eq_of_forget rfl hindex rfl hinv hinv' (Live.forget_eq_of_fate hfate)

/-- A block that writes one name and deletes another. -/
def writeThenDelete : Block :=
  ⟨3, [Index.bareEntry "old" 0 (by decide), Index.bareEntry "new" 1 (by decide)], none⟩

/-- A run in which a later block deletes what that block wrote and writes what it deleted. -/
def crossingRun : List Act :=
  [.update (.feed writeThenDelete), .query .entries,
    .update (.feed
      ⟨7, [Index.bareEntry "new" 0 (by decide), Index.bareEntry "old" 1 (by decide)], none⟩)]

theorem refeeding_unseen_crossing :
    ∃ live again, (keeping.run keeping.start crossingRun).2.index = .filtered live ∧
      keeping.act (keeping.run keeping.start crossingRun).2 (.update (.feed writeThenDelete)) =
        (.done, again) ∧
      again.index.entries = live.entries ∧
      again.index.deletedNames? = some live.deletedNames := by
  obtain ⟨live, hindex, hstaged⟩ : ∃ live,
      (keeping.run keeping.start crossingRun).2.index = .filtered live ∧ live.staged = ∅ :=
    ⟨_, rfl, rfl⟩
  have hfed : Act.update (.feed writeThenDelete) ∈ crossingRun := List.mem_cons_self
  obtain ⟨answer, again, hagain, hanswer, hentries, hdeleted, -⟩ :=
    refeeding_unseen.1 crossingRun writeThenDelete live hfed hindex hstaged
  rw [hanswer rfl] at hagain
  exact ⟨live, again, hindex, hagain, hentries, hdeleted⟩

end Engine
end ArchiveIndex
