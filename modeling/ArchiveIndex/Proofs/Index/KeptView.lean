import ArchiveIndex.Index.Basic
import ArchiveIndex.Proofs.Index.Reconciliation

/-!
# The kept view cannot be seen

A filtered index keeps its entries sorted from the first time that they are asked for until the
end of the next block, so questions write to its state. Here it is compared with one that keeps
nothing and sorts what is committed whenever it is asked.

**Theorem (`kept_view_unseen`).** Both give the same answers to every sequence of calls, whatever
callers do to the lists that they receive. Questions may therefore be put in, left out or repeated
anywhere in a sequence of calls: no other answer changes.

An index is taken as an `Engine`, the few things that it does by itself, and all that can be asked
of it is defined on engines once; for the filtered index this is what the index itself does
(`feed_keeping`, `glob_keeping`). A relation that the engines' own steps preserve is then preserved
by whole runs, with equal answers (`Simulates.run`). Here the relation says that the two states
agree but for the view, and that a view which is kept is in order (`Agrees`).
-/

namespace ArchiveIndex

/-! ## Engines and calls -/

/-- What an index does by itself. `refresh` gives the state after its entries were shown. -/
structure Engine (σ : Type) where
  empty : σ
  add : σ → Entry → σ
  endBlock : σ → σ
  entries : σ → List Entry
  refresh : σ → σ
  deletedNames : σ → Option (List Text)

namespace Engine

/-- A call that changes an index. -/
inductive Update
  | add (e : Entry)
  | endBlock
  | feed (b : Block)

/-- A question to an index. -/
inductive Query
  | entries
  | size
  | iterate
  | glob (pattern : Text)
  | deletedNames

inductive Answer
  | done
  | mismatch (m : CountMismatch)
  | entries (list : List Entry)
  | size (n : Nat)
  | rejected (rejection : Glob.Rejection)
  | names (names : Option (List Text))

variable {σ τ : Type} (E : Engine σ)

/-- Adds a whole block, unless its footer declares another number of entries. -/
def feed (s : σ) (b : Block) : Except CountMismatch σ :=
  match b.mismatch? with
  | some m => .error m
  | none => .ok (E.endBlock (b.entries.foldl E.add s))

/-- The entries shown whose names a pattern selects. -/
def glob (s : σ) (pattern : Text) : Except Glob.Rejection (List Entry) :=
  (Glob.compile pattern).map fun r => (E.entries s).filter fun e => r.selects e.name

/-- Changes an index; a block that is refused leaves it as it was. -/
def update (s : σ) : Update → Answer × σ
  | .add e => (.done, E.add s e)
  | .endBlock => (.done, E.endBlock s)
  | .feed b =>
    match E.feed s b with
    | .error m => (.mismatch m, s)
    | .ok s' => (.done, s')

/-- Answers a question. The entries are shown for every question but that for deleted names; a
pattern is compiled before. -/
def query (s : σ) : Query → Answer × σ
  | .entries | .iterate => (.entries (E.entries s), E.refresh s)
  | .size => (.size (E.entries s).length, E.refresh s)
  | .glob pattern =>
    match E.glob s pattern with
    | .error rejection => (.rejected rejection, s)
    | .ok found => (.entries found, E.refresh s)
  | .deletedNames => (.names (E.deletedNames s), s)

/-! ## Callers -/

/-- A list that an answer hands out. -/
def Answer.list? : Answer → Option (List Entry)
  | .entries list => some list
  | _ => none

/-- An index with the lists that its callers have received. Each is theirs to change. -/
structure Client (σ : Type) where
  index : σ
  lists : List (List Entry)

/-- What callers do: call the index, or write to a list that they have received. -/
inductive Act
  | update (u : Update)
  | query (q : Query)
  | overwrite (place : Nat) (list : List Entry)

def act (c : Client σ) : Act → Answer × Client σ
  | .update u => ((E.update c.index u).1, { c with index := (E.update c.index u).2 })
  | .query q =>
    ((E.query c.index q).1,
      { index := (E.query c.index q).2
        lists := c.lists ++ (E.query c.index q).1.list?.toList })
  | .overwrite place list => (.done, { c with lists := c.lists.set place list })

/-- The answers to a sequence of acts, and what they lead to. -/
def run (c : Client σ) : List Act → List Answer × Client σ
  | [] => ([], c)
  | a :: acts =>
    ((E.act c a).1 :: (run (E.act c a).2 acts).1, (run (E.act c a).2 acts).2)

/-- A fresh index of which nobody has received a list. -/
def start : Client σ := ⟨E.empty, []⟩

/-! ## Simulation -/

/-- The engines' own steps preserve a relation of states, and related states show the same. -/
structure Simulates (A : Engine σ) (B : Engine τ) (R : σ → τ → Prop) : Prop where
  empty : R A.empty B.empty
  add : ∀ {s t}, R s t → ∀ e, R (A.add s e) (B.add t e)
  endBlock : ∀ {s t}, R s t → R (A.endBlock s) (B.endBlock t)
  entries : ∀ {s t}, R s t → A.entries s = B.entries t
  refresh : ∀ {s t}, R s t → R (A.refresh s) (B.refresh t)
  deletedNames : ∀ {s t}, R s t → A.deletedNames s = B.deletedNames t

namespace Simulates

variable {A : Engine σ} {B : Engine τ} {R : σ → τ → Prop} {s : σ} {t : τ}

theorem foldl_add (sim : Simulates A B R) (h : R s t) (records : List Entry) :
    R (records.foldl A.add s) (records.foldl B.add t) := by
  induction records generalizing s t with
  | nil => exact h
  | cons e records ih => exact ih (sim.add h e)

theorem update (sim : Simulates A B R) (h : R s t) (u : Update) :
    (A.update s u).1 = (B.update t u).1 ∧ R (A.update s u).2 (B.update t u).2 := by
  cases u with
  | add e => exact ⟨rfl, sim.add h e⟩
  | endBlock => exact ⟨rfl, sim.endBlock h⟩
  | feed b =>
    cases hm : b.mismatch? with
    | some m => simpa only [Engine.update, Engine.feed, hm, true_and] using h
    | none =>
      simpa only [Engine.update, Engine.feed, hm, true_and] using
        sim.endBlock (sim.foldl_add h b.entries)

theorem query (sim : Simulates A B R) (h : R s t) (q : Query) :
    (A.query s q).1 = (B.query t q).1 ∧ R (A.query s q).2 (B.query t q).2 := by
  have hentries : A.entries s = B.entries t := sim.entries h
  cases q with
  | entries | iterate => exact ⟨congrArg Answer.entries hentries, sim.refresh h⟩
  | size =>
    refine ⟨?_, sim.refresh h⟩
    simp only [Engine.query, hentries]
  | deletedNames => exact ⟨congrArg Answer.names (sim.deletedNames h), h⟩
  | glob pattern =>
    -- A pattern that is refused is refused before the entries are shown: neither state changes.
    have hglob : A.glob s pattern = B.glob t pattern := by
      unfold Engine.glob
      rw [hentries]
    cases hfound : B.glob t pattern with
    | error rejection => simpa only [Engine.query, hglob, hfound, true_and] using h
    | ok found => simpa only [Engine.query, hglob, hfound, true_and] using sim.refresh h

theorem act (sim : Simulates A B R) {c : Client σ} {d : Client τ} (hindex : R c.index d.index)
    (hlists : c.lists = d.lists) (a : Act) :
    (A.act c a).1 = (B.act d a).1 ∧ R (A.act c a).2.index (B.act d a).2.index ∧
      (A.act c a).2.lists = (B.act d a).2.lists := by
  cases a with
  | update u =>
    obtain ⟨hanswer, hstate⟩ := sim.update hindex u
    exact ⟨hanswer, hstate, hlists⟩
  | query q =>
    obtain ⟨hanswer, hstate⟩ := sim.query hindex q
    refine ⟨hanswer, hstate, ?_⟩
    simp only [Engine.act, hanswer, hlists]
  | overwrite place list => exact ⟨rfl, hindex, congrArg (·.set place list) hlists⟩

/-- Runs from related states give the same answers and hand out the same lists. -/
theorem run (sim : Simulates A B R) {c : Client σ} {d : Client τ} (hindex : R c.index d.index)
    (hlists : c.lists = d.lists) (acts : List Act) :
    (A.run c acts).1 = (B.run d acts).1 ∧
      (A.run c acts).2.lists = (B.run d acts).2.lists := by
  induction acts generalizing c d with
  | nil => exact ⟨rfl, hlists⟩
  | cons a acts ih =>
    obtain ⟨hanswer, hstate, hlists'⟩ := sim.act hindex hlists a
    obtain ⟨hanswers, hlater⟩ := ih hstate hlists'
    exact ⟨by rw [Engine.run, Engine.run, hanswer, hanswers], hlater⟩

end Simulates

/-! ## Leaving out questions -/

/-- A part of a run: an act, or a question that may be left out. -/
inductive Item
  | always (a : Act)
  | extra (q : Query)

def Item.act : Item → Act
  | always a => a
  | extra q => .query q

/-- What belongs to a part that is not left out. -/
def Item.keep {α : Type} : Item → α → Option α
  | always _, x => some x
  | extra _, _ => none

/-- The acts of a run without the questions that may be left out. -/
def leaveOut (items : List Item) : List Act := items.filterMap fun i => i.keep i.act

/-- The answers of a run without those to the questions that may be left out. -/
def answersKept (items : List Item) (answers : List Answer) : List Answer :=
  (items.zip answers).filterMap fun p => p.1.keep p.2

/-- The lists that callers have received have no part in what the index does. -/
theorem act_congr {c d : Client σ} (h : c.index = d.index) (a : Act) :
    (E.act c a).1 = (E.act d a).1 ∧ (E.act c a).2.index = (E.act d a).2.index := by
  cases a with
  | update u | query q => simp only [act, h, and_self]
  | overwrite place list => exact ⟨rfl, h⟩

theorem query_snd {E : Engine σ} (hrefresh : ∀ s, E.refresh s = s) (s : σ) (q : Query) :
    (E.query s q).2 = s := by
  cases q with
  | entries | iterate | size => exact hrefresh s
  | deletedNames => rfl
  | glob pattern =>
    cases hfound : E.glob s pattern with
    | error rejection => simp only [query, hfound]
    | ok found => simp only [query, hfound, hrefresh]

/-- Where showing entries does not change the state, questions can be left out. -/
theorem run_leaveOut {E : Engine σ} (hrefresh : ∀ s, E.refresh s = s) (items : List Item)
    {c d : Client σ} (h : c.index = d.index) :
    (E.run c (leaveOut items)).1 = answersKept items (E.run d (items.map Item.act)).1 := by
  induction items generalizing c d with
  | nil => rfl
  | cons i items ih =>
    cases i with
    | always a =>
      obtain ⟨hanswer, hindex⟩ := E.act_congr h a
      show (E.act c a).1 :: (E.run (E.act c a).2 (leaveOut items)).1 =
        (E.act d a).1 :: answersKept items (E.run (E.act d a).2 (items.map Item.act)).1
      rw [hanswer, ih hindex]
    | extra q =>
      -- The longer run goes on from the state that the question found.
      exact ih (h.trans (query_snd hrefresh d.index q).symm)

end Engine

/-! ## A view that keeps nothing -/

/-- A live view that does not keep its entries sorted. -/
structure Uncached where
  committed : NameMap
  staged : NameMap
  deleted : NameSet

namespace Uncached

def empty : Uncached := ⟨∅, ∅, ∅⟩

def add (s : Uncached) (e : Entry) : Uncached :=
  if e.isDeleted then
    { s with deleted := s.deleted.insert e.name, staged := s.staged.erase e.name }
  else if e.name ∈ s.deleted then s
  else { s with staged := s.staged.insert e.name e }

def endBlock (s : Uncached) : Uncached :=
  { s with committed := s.staged ∪ s.committed, staged := ∅ }

/-- The committed entries, sorted afresh. -/
def entries (s : Uncached) : List Entry := s.committed.toList.map (·.2)

end Uncached

namespace Engine

/-- The filtered index. -/
def keeping : Engine Index where
  empty := Index.empty .filtered
  add := Index.add
  endBlock := Index.endBlock
  entries := Index.entries
  refresh := Index.refresh
  deletedNames := Index.deletedNames?

/-- The view that keeps nothing, so that questions leave it as it is. -/
def uncached : Engine Uncached where
  empty := Uncached.empty
  add := Uncached.add
  endBlock := Uncached.endBlock
  entries := Uncached.entries
  refresh s := s
  deletedNames s := some s.deleted.toList

theorem feed_keeping (index : Index) (b : Block) : keeping.feed index b = index.feed b := rfl

theorem glob_keeping (index : Index) (pattern : Text) :
    keeping.glob index pattern = index.glob pattern := rfl

end Engine

namespace Live

/-- The view without what it keeps sorted. -/
def forget (s : Live) : Uncached := ⟨s.committed, s.staged, s.deleted⟩

theorem forget_add (s : Live) (e : Entry) : (s.add e).forget = s.forget.add e := by
  unfold add Uncached.add
  by_cases hd : e.isDeleted = true
  · rw [if_pos hd, if_pos hd]
    rfl
  · rw [if_neg hd, if_neg hd]
    have hdeleted : s.forget.deleted = s.deleted := rfl
    rw [hdeleted]
    by_cases hm : e.name ∈ s.deleted
    · rw [if_pos hm, if_pos hm]
    · rw [if_neg hm, if_neg hm]
      rfl

end Live

namespace Engine

/-- A filtered index whose kept view, if there is one, is in order, and the same without it. -/
def Agrees (index : Index) (t : Uncached) : Prop :=
  ∃ live : Live, index = .filtered live ∧ live.Inv ∧ t = live.forget

/-- The two go together step by step. -/
theorem simulates_uncached : Simulates keeping uncached Agrees where
  empty := ⟨Live.empty, rfl, Live.inv_empty, rfl⟩
  add := by
    intro _ _ ⟨live, hindex, hinv, hforget⟩ e
    subst hindex hforget
    exact ⟨live.add e, rfl, Live.inv_add hinv e, (Live.forget_add live e).symm⟩
  endBlock := by
    intro _ _ ⟨live, hindex, hinv, hforget⟩
    subst hindex hforget
    exact ⟨live.endBlock, rfl, Live.inv_endBlock hinv, rfl⟩
  entries := by
    intro _ _ ⟨live, hindex, hinv, hforget⟩
    subst hindex hforget
    exact Live.entries_eq_sorted hinv
  refresh := by
    intro _ _ ⟨live, hindex, hinv, hforget⟩
    subst hindex hforget
    exact ⟨live.refresh, rfl, Live.inv_refresh hinv, rfl⟩
  deletedNames := by
    intro _ _ ⟨live, hindex, _, hforget⟩
    subst hindex hforget
    rfl

/-- **The kept view cannot be seen.** A filtered index gives the answers of a view that sorts its
entries whenever they are asked for, and hands out the same lists, whatever callers do to them.
Questions that are left out of a run change no other answer. -/
theorem kept_view_unseen :
    (∀ acts, (keeping.run keeping.start acts).1 = (uncached.run uncached.start acts).1 ∧
      (keeping.run keeping.start acts).2.lists = (uncached.run uncached.start acts).2.lists) ∧
    ∀ items, (keeping.run keeping.start (leaveOut items)).1 =
      answersKept items (keeping.run keeping.start (items.map Item.act)).1 := by
  have hsame := fun acts => simulates_uncached.run (c := keeping.start) (d := uncached.start)
    simulates_uncached.empty rfl acts
  refine ⟨hsame, fun items => ?_⟩
  calc (keeping.run keeping.start (leaveOut items)).1
      = (uncached.run uncached.start (leaveOut items)).1 := (hsame _).1
    _ = answersKept items (uncached.run uncached.start (items.map Item.act)).1 :=
        run_leaveOut (fun _ => rfl) items rfl
    _ = answersKept items (keeping.run keeping.start (items.map Item.act)).1 := by
        rw [(hsame _).1]

end Engine
end ArchiveIndex
