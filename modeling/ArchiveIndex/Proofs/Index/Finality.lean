import ArchiveIndex.Proofs.Index.FeedingOrder
import ArchiveIndex.Proofs.Index.Runs

/-!
# Decisions are final

A filtered index decides names as it is fed and never goes back on a decision.

**Theorem (`decisions_final`).** Go on from any state of a run, whether or not entries are waiting
for the end of their block. Every entry shown stays as it is. A deleted name that is not shown will
not be shown again. No name is taken from the deleted ones.

What a fate has decided is kept step by step (`Fate.Upholds`). An entry does not touch what is
committed, and only adds to what is deleted. The end of a block commits what is staged, but nothing
is staged for a deleted name, and what is committed already takes precedence.
-/

namespace ArchiveIndex

namespace Fate

/-- A later fate upholds a decision: what was committed still is, what was deleted still is, and a
name that was deleted before anything was committed for it has nothing committed. -/
structure Upholds (f g : Fate) : Prop where
  committed : ∀ e, f.committed = some e → g.committed = some e
  deleted : f.deleted = true → g.deleted = true
  gone : f.deleted = true → f.committed = none → g.committed = none

variable {f g : Fate}

theorem upholds_refl (f : Fate) : f.Upholds f := ⟨fun _ h => h, id, fun _ h => h⟩

theorem upholds_add (h : f.Upholds g) (e : Entry) : f.Upholds (g.add e) := by
  unfold add
  by_cases he : e.isDeleted = true
  · rw [if_pos he]
    exact ⟨h.committed, fun _ => rfl, h.gone⟩
  · rw [if_neg he]
    by_cases hg : g.deleted = true
    · rw [if_pos hg]
      exact h
    · rw [if_neg hg]
      exact ⟨h.committed, h.deleted, h.gone⟩

theorem upholds_endBlock (h : f.Upholds g) (hg : g.deleted = true → g.staged = none) :
    f.Upholds g.endBlock := by
  refine ⟨fun e he => ?_, h.deleted, fun hd hc => ?_⟩
  · rw [endBlock, h.committed e he, Option.some_or]
  · -- A deleted name has nothing waiting that the end of the block could commit.
    rw [endBlock, h.gone hd hc, hg (h.deleted hd), Option.none_or]

end Fate

namespace Live

variable {s t : Live}

/-- The later view upholds the decision on every name. -/
def Upholds (s t : Live) : Prop := ∀ name, (s.fate name).Upholds (t.fate name)

theorem upholds_refl (s : Live) : s.Upholds s := fun name => Fate.upholds_refl (s.fate name)

theorem upholds_add (h : s.Upholds t) (e : Entry) : s.Upholds (t.add e) := by
  intro name
  rw [fate_add]
  by_cases hn : e.name = name
  · rw [if_pos hn]
    exact Fate.upholds_add (h name) e
  · rw [if_neg hn]
    exact h name

theorem upholds_endBlock (h : s.Upholds t) (ht : t.Inv) : s.Upholds t.endBlock := by
  intro name
  rw [fate_endBlock]
  exact Fate.upholds_endBlock (h name) (ht.fate name).not_deleted

theorem upholds_refresh (h : s.Upholds t) : s.Upholds t.refresh := h

/-- A name is not shown if nothing is committed for it. -/
theorem forall_name_ne_iff (hs : s.Inv) (name : Text) :
    (∀ e ∈ s.entries, e.name ≠ name) ↔ (s.fate name).committed = none := by
  have hnone : recordsOf name s.entries = [] ↔ ∀ e ∈ s.entries, e.name ≠ name := by
    simp [recordsOf]
  rw [← hnone, recordsOf_entries hs, Option.toList_eq_nil_iff]

end Live

namespace Engine

/-- Going on from a state, a run upholds what was decided there. -/
theorem shows_upholds_run {c : Client Index} {s : Live} (hindex : c.index = .filtered s)
    (hs : s.Inv) (acts : List Act) :
    Shows (fun t => t.Inv ∧ s.Upholds t) (keeping.run c acts).2.index := by
  have hkeeps : Keeps keeping (Shows fun t => t.Inv ∧ s.Upholds t) :=
    keeps_shows (fun h e => ⟨Live.inv_add h.1 e, Live.upholds_add h.2 e⟩)
      (fun h => ⟨Live.inv_endBlock h.1, Live.upholds_endBlock h.2 h.1⟩)
      (fun h => ⟨Live.inv_refresh h.1, Live.upholds_refresh h.2⟩)
  exact hkeeps.run ⟨s, hindex, hs, Live.upholds_refl s⟩ acts

/-- **Decisions are final.** Let a run lead to one state and, when it goes on, to another. Then
every entry shown in the first is shown in the second, unchanged and as the only one of its name;
a deleted name that is not shown in the first is not shown in the second; and every name that is
deleted in the first is deleted in the second. -/
theorem decisions_final (earlier later : List Act) :
    ∃ s t : Live, (keeping.run keeping.start earlier).2.index = .filtered s ∧
      (keeping.run (keeping.run keeping.start earlier).2 later).2.index = .filtered t ∧
      (∀ e ∈ s.entries, recordsOf e.name t.entries = [e]) ∧
      (∀ name ∈ s.deletedNames, (∀ e ∈ s.entries, e.name ≠ name) →
        ∀ e ∈ t.entries, e.name ≠ name) ∧
      ∀ name ∈ s.deletedNames, name ∈ t.deletedNames := by
  obtain ⟨s, hs, hinv⟩ := shows_inv_run earlier
  obtain ⟨t, ht, hinv', hupholds⟩ := shows_upholds_run hs hinv later
  refine ⟨s, t, hs, ht, fun e he => ?_, fun name hd hgone => ?_, fun name hd => ?_⟩
  · have hcommitted := (hupholds e.name).committed e ((Live.mem_entries hinv e).1 he)
    rw [Live.recordsOf_entries hinv', hcommitted, Option.toList_some]
  · have hdeleted := Live.mem_deletedNames.1 hd
    have hnone := (Live.forall_name_ne_iff hinv name).1 hgone
    exact (Live.forall_name_ne_iff hinv' name).2 ((hupholds name).gone hdeleted hnone)
  · exact Live.mem_deletedNames.2
      ((hupholds name).deleted (Live.mem_deletedNames.1 hd))

/-- A run that commits one name, deletes another while a write of it waits, and leaves a third
waiting. -/
def decidedRun : List Act :=
  [.update (.feed ⟨9, [Index.bareEntry "kept" 0 (by decide)], none⟩),
    .update (.add (Index.bareEntry "gone" 0 (by decide))),
    .update (.add (Index.bareEntry "gone" 1 (by decide))),
    .update (.add (Index.bareEntry "late" 0 (by decide)))]

/-- Acts against these decisions: the first name is deleted, and both are written again. -/
def contraryActs : List Act :=
  [.update (.add (Index.bareEntry "kept" 1 (by decide))), .query .entries,
    .update (.add (Index.bareEntry "gone" 0 (by decide))), .update .endBlock,
    .update (.feed
      ⟨3, [Index.bareEntry "kept" 2 (by decide), Index.bareEntry "gone" 0 (by decide)], none⟩)]

theorem decisions_final_contrary :
    ∃ s t : Live, (keeping.run keeping.start decidedRun).2.index = .filtered s ∧
      (keeping.run (keeping.run keeping.start decidedRun).2 contraryActs).2.index = .filtered t ∧
      s.entries = [Index.bareEntry "kept" 0 (by decide)] ∧ s.deletedNames = [Text.ofString "gone"] ∧
      recordsOf "kept" t.entries = [Index.bareEntry "kept" 0 (by decide)] ∧
      (∀ e ∈ t.entries, e.name ≠ "gone") ∧ Text.ofString "gone" ∈ t.deletedNames := by
  obtain ⟨s, t, hs, ht, hkept, hgone, hdeleted⟩ := decisions_final decidedRun contraryActs
  have hshown : (keeping.run keeping.start decidedRun).2.index.entries =
      [Index.bareEntry "kept" 0 (by decide)] := by cbv
  have hnames : (keeping.run keeping.start decidedRun).2.index.deletedNames? =
      some [Text.ofString "gone"] := by
    cbv
  rw [hs] at hshown hnames
  have hentries : s.entries = [Index.bareEntry "kept" 0 (by decide)] := hshown
  have hdeletedNames : s.deletedNames = [Text.ofString "gone"] := Option.some.inj hnames
  have hmem : Text.ofString "gone" ∈ s.deletedNames := by
    rw [hdeletedNames]
    exact List.mem_singleton_self (Text.ofString "gone")
  refine ⟨s, t, hs, ht, hentries, hdeletedNames, ?_, hgone "gone" hmem ?_, hdeleted "gone" hmem⟩
  · exact hkept (Index.bareEntry "kept" 0 (by decide)) (by rw [hentries]; exact List.mem_cons_self)
  · rw [hentries]
    decide

end Engine
end ArchiveIndex
