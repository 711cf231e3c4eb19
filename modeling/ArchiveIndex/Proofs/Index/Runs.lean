import ArchiveIndex.Proofs.Index.KeptView

/-!
# What holds in every state of a run

Whatever is asked of an index, its state moves by three steps only: an entry is added, a block
ends, or the entries are shown. A property that these keep is kept by every run (`Keeps.run`).
-/

namespace ArchiveIndex.Engine

variable {σ : Type} {E : Engine σ}

/-! ## Kept properties -/

/-- A property of states that an engine's own steps keep. -/
structure Keeps (E : Engine σ) (P : σ → Prop) : Prop where
  add : ∀ {s}, P s → ∀ e, P (E.add s e)
  endBlock : ∀ {s}, P s → P (E.endBlock s)
  refresh : ∀ {s}, P s → P (E.refresh s)

namespace Keeps

variable {P : σ → Prop}

theorem foldl_add (keeps : Keeps E P) {s : σ} (h : P s) (records : List Entry) :
    P (records.foldl E.add s) :=
  List.foldlRecOn records E.add h fun _ ht e _ => keeps.add ht e

theorem update (keeps : Keeps E P) {s : σ} (h : P s) (u : Update) : P (E.update s u).2 := by
  cases u with
  | add e => exact keeps.add h e
  | endBlock => exact keeps.endBlock h
  | feed b =>
    cases hm : b.mismatch? with
    | some m => simpa only [Engine.update, Engine.feed, hm] using h
    | none =>
      simpa only [Engine.update, Engine.feed, hm] using keeps.endBlock (keeps.foldl_add h b.entries)

theorem query (keeps : Keeps E P) {s : σ} (h : P s) (q : Query) : P (E.query s q).2 := by
  cases q with
  | entries | iterate | size => exact keeps.refresh h
  | deletedNames => exact h
  | glob pattern =>
    cases hfound : E.glob s pattern with
    | error rejection => simpa only [Engine.query, hfound] using h
    | ok found => simpa only [Engine.query, hfound] using keeps.refresh h

theorem act (keeps : Keeps E P) {c : Client σ} (h : P c.index) (a : Act) :
    P (E.act c a).2.index := by
  cases a with
  | update u => exact keeps.update h u
  | query q => exact keeps.query h q
  | overwrite place list => exact h

theorem run (keeps : Keeps E P) {c : Client σ} (h : P c.index) (acts : List Act) :
    P (E.run c acts).2.index := by
  induction acts generalizing c with
  | nil => exact h
  | cons a acts ih => exact ih (keeps.act h a)

end Keeps

/-- A run goes on from the state that its first part leads to. -/
theorem run_append (c : Client σ) (acts later : List Act) :
    (E.run c (acts ++ later)).2 = (E.run (E.run c acts).2 later).2 := by
  induction acts generalizing c with
  | nil => rfl
  | cons a acts ih => exact ih (E.act c a).2

/-! ## The filtered index -/

/-- The index is filtered, and its view has a property. -/
def Shows (P : Live → Prop) (index : Index) : Prop := ∃ live, index = .filtered live ∧ P live

theorem keeps_shows {P : Live → Prop} (hadd : ∀ {s}, P s → ∀ e, P (s.add e))
    (hendBlock : ∀ {s : Live}, P s → P s.endBlock) (hrefresh : ∀ {s : Live}, P s → P s.refresh) :
    Keeps keeping (Shows P) where
  add := by
    rintro _ ⟨live, rfl, h⟩ e
    exact ⟨live.add e, rfl, hadd h e⟩
  endBlock := by
    rintro _ ⟨live, rfl, h⟩
    exact ⟨live.endBlock, rfl, hendBlock h⟩
  refresh := by
    rintro _ ⟨live, rfl, h⟩
    exact ⟨live.refresh, rfl, hrefresh h⟩

/-- The view of every index that a run leads to is in order. -/
theorem shows_inv_run (acts : List Act) :
    Shows Live.Inv (keeping.run keeping.start acts).2.index := by
  have hkeeps : Keeps keeping (Shows Live.Inv) :=
    keeps_shows Live.inv_add Live.inv_endBlock Live.inv_refresh
  exact hkeeps.run ⟨Live.empty, rfl, Live.inv_empty⟩ acts

end ArchiveIndex.Engine
