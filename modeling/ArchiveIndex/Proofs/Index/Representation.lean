import Mathlib.Data.Int.Bitwise
import ArchiveIndex.Proofs.Index.Building
import ArchiveIndex.Proofs.Index.Refusals
import ArchiveIndex.Proofs.Index.Runs

/-!
# The representation of a live view

A live view keeps two maps, a set and sometimes a list. They fit together: entries stand under their
names, deletions are recorded and never held, nothing waits for a deleted name, and a list that is
kept is the one that sorting would give.

**Theorem (`represents_run`).** This is so after any sequence of calls, in the middle of blocks as
well, and whether or not calls were refused. Nothing waits after the end of a block.

The invariant that carries it is `Live.Inv`, which says the same name by name. A call may break off
between two of its steps, so what is shown to be kept is kept by each step of each call in place
(`Procedure.Keeps`): the checks do not touch the index, and what they let through adds an entry,
ends a block or shows the entries.
-/

namespace ArchiveIndex

namespace Bits

theorem isSet_natCast (m k : Nat) : isSet m k = m.testBit k := by
  induction k generalizing m with
  | zero =>
    rw [isSet_zero, Nat.testBit_zero, Bool.eq_iff_iff, beq_iff_eq, decide_eq_true_eq]
    omega
  | succ k ih =>
    rw [isSet_succ, Nat.testBit_succ, ← ih]
    rfl

/-- The bits of `-(m + 1)` are those of `m` turned over. -/
theorem isSet_negSucc (m k : Nat) : isSet (Int.negSucc m) k = !m.testBit k := by
  induction k generalizing m with
  | zero =>
    rw [isSet_zero, Nat.testBit_zero, Bool.eq_iff_iff, beq_iff_eq, Bool.not_eq_true',
      decide_eq_false_iff_not]
    omega
  | succ k ih =>
    have hhalf : Int.negSucc m / 2 = Int.negSucc (m / 2) := by omega
    rw [isSet_succ, Nat.testBit_succ, hhalf, ih]

/-- The bits are those of the two's complement form. -/
theorem isSet_eq_testBit (n : Int) (k : Nat) : isSet n k = n.testBit k := by
  cases n with
  | ofNat m => exact isSet_natCast m k
  | negSucc m => exact isSet_negSucc m k

end Bits

namespace Live

/-- The containers of a view fit together. An entry that is held stands under its own name and has
no delete bit, in two's complement if its flag is negative. A name that waits is not deleted. A list
that is kept has the committed entries and no others, in strictly ascending order of names. -/
structure Represents (s : Live) : Prop where
  committed : ∀ (name : Text) (e : Entry), s.committed[name]? = some e →
    e.name = name ∧ e.flag.testBit 0 = false
  staged : ∀ (name : Text) (e : Entry), s.staged[name]? = some e →
    e.name = name ∧ e.flag.testBit 0 = false
  staged_not_deleted : ∀ name ∈ s.staged, name ∉ s.deleted
  view_ascends : ∀ shown, s.view = some shown → shown.Pairwise fun a b => a.name < b.name
  mem_view : ∀ shown, s.view = some shown →
    ∀ e, e ∈ shown ↔ ∃ name : Text, s.committed[name]? = some e

theorem represents_of_inv {s : Live} (h : s.Inv) : s.Represents where
  committed name e he := by
    obtain ⟨hname, hlive⟩ := (h.fate name).committed e he
    exact ⟨hname, by rw [← Bits.isSet_eq_testBit]; exact hlive⟩
  staged name e he := by
    obtain ⟨hname, hlive⟩ := (h.fate name).staged e he
    exact ⟨hname, by rw [← Bits.isSet_eq_testBit]; exact hlive⟩
  staged_not_deleted name hstaged hdeleted := by
    have hnone : s.staged[name]? = none :=
      (h.fate name).not_deleted (Std.ExtTreeSet.mem_iff_contains.1 hdeleted)
    rw [Std.ExtTreeMap.mem_iff_isSome_getElem?, hnone] at hstaged
    exact Bool.noConfusion hstaged
  view_ascends shown hshown := by
    rw [h.view shown hshown, ← entries_eq_sorted h]
    exact pairwise_entries h
  mem_view shown hshown e := by
    rw [h.view shown hshown, ← entries_eq_sorted h, mem_entries h]
    constructor
    · intro he
      exact ⟨e.name, he⟩
    · intro ⟨name, he⟩
      obtain ⟨rfl, -⟩ := (h.fate name).committed e he
      exact he

end Live

namespace Index

namespace Procedure

variable {ε ι α β : Type} {P : Index → Prop}

/-! ## What procedures keep -/

/-- A procedure keeps a property of indexes, whether or not it breaks off. -/
def Keeps (P : Index → Prop) (p : Procedure α) : Prop :=
  ∀ index, P index → P (perform p index).2

theorem keeps_pure (a : α) : Keeps P (pure a) := fun _ h => h

theorem keeps_modify {f : Index → Index} (hf : ∀ index, P index → P (f index)) :
    Keeps P (modify f) := hf

theorem Keeps.bind {p : Procedure α} {next : α → Procedure β} (hp : Keeps P p)
    (hnext : ∀ a, Keeps P (next a)) : Keeps P (p >>= next) := by
  intro index h
  have hleft := hp index h
  rw [perform_bind]
  rcases hperform : perform p index with ⟨refusal | a, left⟩
  · rw [hperform] at hleft
    exact hleft
  · rw [hperform] at hleft
    exact hnext a left hleft

/-- Checks do not touch the index. -/
theorem keeps_require (why : ε → Refusal) (x : Except ε α) : Keeps P (require why x) := by
  intro index h
  rw [perform_require]
  cases x with
  | ok a => exact h
  | error e => exact h

theorem keeps_verify (b : Block) : Keeps P (verify b) := by
  intro index h
  rw [perform_verify]
  cases b.mismatch? with
  | some m => exact h
  | none => exact h

/-- One procedure after the other keeps what each of them keeps. -/
theorem keeps_performEach {procedure : ι → Procedure α} (h : ∀ i, Keeps P (procedure i))
    {index : Index} (hindex : P index) (items : List ι) :
    P (performEach procedure index items).2 := by
  induction items generalizing index with
  | nil => exact hindex
  | cons i items ih => exact ih (h i index hindex)

section Calls

variable (steps : Engine.Keeps Engine.keeping P)
include steps

theorem keeps_add (draft : Entry.Draft) : Keeps P (add draft) :=
  (keeps_require .entry draft.check).bind fun e => keeps_modify fun _ h => steps.add h e

theorem keeps_addEach (records : List Entry) : Keeps P (addEach records) := by
  intro index h
  rw [perform_addEach]
  exact steps.foldl_add h records

theorem keeps_endBlock : Keeps P endBlock := keeps_modify fun _ h => steps.endBlock h

theorem keeps_feed (draft : Block.Draft) : Keeps P (feed draft) :=
  (keeps_require .block draft.check).bind fun b =>
    (keeps_verify b).bind fun _ => (keeps_addEach steps b.entries).bind fun _ =>
      keeps_endBlock steps

theorem keeps_entries : Keeps P entries := fun _ h => steps.refresh h

theorem keeps_glob (pattern : Text) : Keeps P (glob pattern) :=
  (keeps_require .pattern (Glob.compile pattern)).bind fun _ =>
    (keeps_entries steps).bind fun _ => keeps_pure _

/-- What adding an entry, ending a block and showing the entries keep, every call keeps. -/
theorem keeps_call (call : Call) : Keeps P call.procedure := by
  cases call with
  | add draft => exact (keeps_add steps draft).bind fun _ => keeps_pure _
  | endBlock => exact (keeps_endBlock steps).bind fun _ => keeps_pure _
  | feed draft => exact (keeps_feed steps draft).bind fun _ => keeps_pure _
  | entries => exact (keeps_entries steps).bind fun _ => keeps_pure _
  | size => exact (keeps_entries steps).bind fun _ => keeps_pure _
  | glob pattern => exact (keeps_glob steps pattern).bind fun _ => keeps_pure _
  | deletedNames => exact fun _ h => h

end Calls

end Procedure

open Procedure

/-- A fresh filtered index after calls in turn, some of which may have been refused. -/
def afterCalls (calls : List Call) : Index :=
  (performEach Call.procedure (.empty .filtered) calls).2

theorem shows_inv_afterCalls (calls : List Call) : Engine.Shows Live.Inv (afterCalls calls) := by
  have hsteps : Engine.Keeps Engine.keeping (Engine.Shows Live.Inv) :=
    Engine.keeps_shows Live.inv_add Live.inv_endBlock Live.inv_refresh
  exact keeps_performEach (keeps_call hsteps) ⟨Live.empty, rfl, Live.inv_empty⟩ calls

/-- A block that is not refused comes to its end, and leaves nothing waiting. -/
theorem staged_of_perform_feed {s : Live} {draft : Block.Draft} {reply : Reply} {index : Index}
    (h : perform (Call.feed draft).procedure (.filtered s) = (.ok reply, index)) :
    ∃ t : Live, index = .filtered t ∧ t.staged = ∅ := by
  rw [Call.procedure, perform_bind, perform_feed] at h
  cases hcheck : draft.check with
  | error flaw => simp [hcheck] at h
  | ok b =>
    cases hm : b.mismatch? with
    | some m => simp [hcheck, Index.feed, hm] at h
    | none =>
      simp only [hcheck, Index.feed, hm, foldl_add_filtered] at h
      obtain ⟨-, rfl⟩ := Prod.mk.inj h
      exact ⟨s.feed b.entries, rfl, rfl⟩

/-- **The representation of a live view is kept.** After any calls in turn, refused or not, the
containers of a filtered index fit together. Ending the block leaves nothing waiting, and so does a
block that is fed and not refused. -/
theorem represents_run (calls : List Call) :
    ∃ s : Live, afterCalls calls = .filtered s ∧ s.Represents ∧
      (∃ t : Live, perform Call.endBlock.procedure (.filtered s) = (.ok .done, .filtered t) ∧
        t.staged = ∅) ∧
      ∀ draft reply index,
        perform (Call.feed draft).procedure (.filtered s) = (.ok reply, index) →
          ∃ t : Live, index = .filtered t ∧ t.staged = ∅ := by
  obtain ⟨s, hs, hinv⟩ := shows_inv_afterCalls calls
  refine ⟨s, hs, Live.represents_of_inv hinv, ⟨s.endBlock, rfl, rfl⟩, ?_⟩
  intro draft reply index h
  exact staged_of_perform_feed h

/-- Calls that stop in the middle of a block: a name that is shown was deleted, another was deleted
while a write of it waited, a third waits, and a block was refused in between. -/
def stoppedInBlock : List Call :=
  [.add { name := "kept" }, .endBlock, .entries, .add { name := "gone" },
    .add { name := "gone", flag := -1 }, .add { name := "kept", flag := 3 },
    .feed ⟨7, [{ name := "late", flag := 1 }], some ⟨2, 0, 0, 0⟩⟩,
    .add { name := "late", flag := -2 }, .glob "*"]

theorem represents_run_stoppedInBlock :
    ∃ s t : Live, afterCalls stoppedInBlock = .filtered s ∧ s.Represents ∧
      s.deletedNames = [Text.ofString "gone", Text.ofString "kept"] ∧
      perform (Call.feed ⟨3, [{ name := "old" }], none⟩).procedure (.filtered s) =
        (.ok .done, .filtered t) ∧ t.staged = ∅ := by
  obtain ⟨s, hs, hrepresents, -, hfeed⟩ := represents_run stoppedInBlock
  have hnames : (afterCalls stoppedInBlock).deletedNames? =
      some [Text.ofString "gone", Text.ofString "kept"] := by
    decide +kernel
  rw [hs] at hnames
  obtain ⟨index, hdone⟩ : ∃ index,
      perform (Call.feed ⟨3, [{ name := "old" }], none⟩).procedure (.filtered s) =
        (.ok .done, index) := ⟨_, rfl⟩
  obtain ⟨t, rfl, hstaged⟩ := hfeed _ _ _ hdone
  exact ⟨s, t, hs, hrepresents, Option.some.inj hnames, hdone, hstaged⟩

end Index
end ArchiveIndex
