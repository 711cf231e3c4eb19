import ArchiveIndex.Proofs.Index.Fate

/-!
# Reconciliation

What a live view shows after a run, said without the containers that it keeps.

**Theorem (`entries_run`).** Cut the entries added by a run into blocks where blocks ended. The
view then shows the names in ascending order. Of a name it shows the last record in the first
block that mentions the name, and nothing if that block holds a deletion of it, before or after
the writes, or if no block mentions it. Entries of a block that has not ended are not seen.

The proof follows each name through its fate. `Live.fate` projects a state to the fate of a
name and commutes with every step, so the closed form of `Fate.foldl_feed` gives what is
committed; the representation invariant `Live.Inv` says how entries are shown from there.
-/

namespace ArchiveIndex

/-- Names are compared code point by code point. -/
theorem Text.compare_eq_lt_iff (s t : Text) : compare s t = .lt ↔ s < t := by
  induction s generalizing t with
  | nil => cases t <;> simp
  | cons p s ih =>
    cases t with
    | nil => simp
    | cons q t =>
      have hlt : compare p q = .lt ↔ p < q := Nat.compare_eq_lt
      have heq : compare p q = .eq ↔ p = q := Nat.compare_eq_eq.trans Fin.ext_iff.symm
      rw [List.compare_cons_cons, Ordering.then_eq_lt, hlt, heq, ih, List.cons_lt_cons_iff]

/-- The records of a name, in their order. -/
def recordsOf (name : Text) (records : List Entry) : List Entry :=
  records.filter fun e => e.name = name

@[simp] theorem mem_recordsOf {name : Text} {records : List Entry} {e : Entry} :
    e ∈ recordsOf name records ↔ e ∈ records ∧ e.name = name := by
  simp [recordsOf]

/-- Whether one of the records is of a name. -/
def mentions (name : Text) (records : List Entry) : Bool := records.any fun e => e.name = name

theorem isEmpty_recordsOf (name : Text) (records : List Entry) :
    (recordsOf name records).isEmpty = !mentions name records := by
  rw [Bool.eq_iff_iff]
  simp [recordsOf, mentions]

theorem recordsOf_eq_nil_iff {name : Text} {records : List Entry} :
    recordsOf name records = [] ↔ mentions name records = false := by
  rw [← List.isEmpty_iff, isEmpty_recordsOf, Bool.not_eq_true']

theorem recordsOf_ne_nil {name : Text} {records : List Entry}
    (h : mentions name records = true) : recordsOf name records ≠ [] := by
  rw [ne_eq, recordsOf_eq_nil_iff, h]
  exact Bool.noConfusion

namespace Live

/-! ## The fate of each name -/

/-- What a view knows of a name. -/
def fate (s : Live) (name : Text) : Fate where
  committed := s.committed[name]?
  staged := s.staged[name]?
  deleted := s.deleted.contains name

@[simp] theorem fate_empty (name : Text) : empty.fate name = Fate.unknown := by
  simp [fate, empty, Fate.unknown]

@[simp] theorem fate_refresh (s : Live) (name : Text) : s.refresh.fate name = s.fate name := rfl

/-- An entry moves the fate of its own name only. -/
theorem fate_add (s : Live) (e : Entry) (name : Text) :
    (s.add e).fate name = if e.name = name then (s.fate name).add e else s.fate name := by
  unfold add
  by_cases hd : e.isDeleted
  · rw [if_pos hd]
    by_cases hn : e.name = name
    · simp [fate, Fate.add, hd, hn]
    · simp [fate, hn, Std.ExtTreeMap.getElem?_erase, Std.ExtTreeSet.contains_insert]
  · rw [if_neg hd]
    by_cases hn : e.name = name
    · by_cases hm : e.name ∈ s.deleted
      · have hc : s.deleted.contains name = true := by
          rwa [← hn, ← Std.ExtTreeSet.mem_iff_contains]
        rw [if_pos hm, if_pos hn]
        simp [fate, Fate.add, hd, hc]
      · have hc : s.deleted.contains name = false := by
          rwa [← hn, Bool.eq_false_iff, ne_eq, ← Std.ExtTreeSet.mem_iff_contains]
        rw [if_neg hm, if_pos hn]
        simp [fate, Fate.add, hd, hc, hn]
    · rw [if_neg hn]
      split
      · rfl
      · simp [fate, hn, Std.ExtTreeMap.getElem?_insert]

/-- The end of a block moves every fate by the same rule. -/
theorem fate_endBlock (s : Live) (name : Text) :
    s.endBlock.fate name = (s.fate name).endBlock := by
  unfold fate Fate.endBlock
  rw [getElem?_committed_endBlock]
  simp [endBlock]

theorem fate_foldl_add (s : Live) (records : List Entry) (name : Text) :
    (records.foldl add s).fate name = (recordsOf name records).foldl Fate.add (s.fate name) := by
  induction records generalizing s with
  | nil => rfl
  | cons e records ih =>
    rw [List.foldl_cons, ih, fate_add]
    by_cases hn : e.name = name <;> simp [recordsOf, hn]

/-! ## The representation invariant -/

/-- Every fate is in order, and a view that is kept shows what is committed. -/
structure Inv (s : Live) : Prop where
  fate : ∀ name, (s.fate name).Inv name
  view : ∀ shown, s.view = some shown → shown = s.sorted

theorem inv_empty : empty.Inv where
  fate name := by rw [fate_empty]; exact Fate.inv_unknown name
  view shown h := by
    obtain rfl : [] = shown := by simpa [empty] using h
    simp [sorted, empty]

theorem committed_add (s : Live) (e : Entry) : (s.add e).committed = s.committed := by
  unfold add
  split
  · rfl
  · split <;> rfl

theorem view_add (s : Live) (e : Entry) : (s.add e).view = s.view := by
  unfold add
  split
  · rfl
  · split <;> rfl

/-- Entries that are added are not seen before the end of the block. -/
theorem entries_add (s : Live) (e : Entry) : (s.add e).entries = s.entries := by
  unfold entries sorted
  rw [committed_add, view_add]

theorem inv_add {s : Live} (h : s.Inv) (e : Entry) : (s.add e).Inv where
  fate name := by
    rw [fate_add]
    by_cases hn : e.name = name
    · rw [if_pos hn]
      exact Fate.inv_add (h.fate name) hn
    · rw [if_neg hn]
      exact h.fate name
  view shown hs := by
    rw [view_add] at hs
    rw [h.view shown hs, sorted, sorted, committed_add]

theorem inv_endBlock {s : Live} (h : s.Inv) : s.endBlock.Inv where
  fate name := by rw [fate_endBlock]; exact Fate.inv_endBlock (h.fate name)
  view shown hs := by simp [endBlock] at hs

theorem inv_refresh {s : Live} (h : s.Inv) : s.refresh.Inv where
  fate := h.fate
  view shown hs := by
    obtain rfl : s.entries = shown := by simpa [refresh] using hs
    show s.view.getD s.sorted = s.sorted
    cases hv : s.view with
    | none => rfl
    | some kept => exact h.view kept hv

theorem entries_eq_sorted {s : Live} (h : s.Inv) : s.entries = s.sorted := by
  unfold entries
  cases hv : s.view with
  | none => rfl
  | some kept => exact h.view kept hv

/-- What is shown is fixed by what is committed for each name. -/
theorem entries_congr {s t : Live} (hs : s.Inv) (ht : t.Inv)
    (h : ∀ name, (t.fate name).committed = (s.fate name).committed) : t.entries = s.entries := by
  have hcommitted : t.committed = s.committed := Std.ExtTreeMap.ext_getElem? h
  rw [entries_eq_sorted hs, entries_eq_sorted ht, sorted, sorted, hcommitted]

theorem mem_deletedNames {s : Live} {name : Text} :
    name ∈ s.deletedNames ↔ (s.fate name).deleted = true := by
  rw [deletedNames, Std.ExtTreeSet.mem_toList, Std.ExtTreeSet.mem_iff_contains]
  rfl

theorem deletedNames_congr {s t : Live}
    (h : ∀ name, (t.fate name).deleted = (s.fate name).deleted) :
    t.deletedNames = s.deletedNames := by
  have hdeleted : t.deleted = s.deleted := Std.ExtTreeSet.ext_contains h
  rw [deletedNames, deletedNames, hdeleted]

/-- An entry is shown if it is what is committed for its name. -/
theorem mem_entries {s : Live} (h : s.Inv) (e : Entry) :
    e ∈ s.entries ↔ (s.fate e.name).committed = some e := by
  rw [entries_eq_sorted h, sorted, List.mem_map]
  constructor
  · rintro ⟨⟨name, e'⟩, hm, rfl⟩
    have hc : (s.fate name).committed = some e' :=
      Std.ExtTreeMap.mem_toList_iff_getElem?_eq_some.1 hm
    rwa [((h.fate name).committed e' hc).1]
  · intro hc
    exact ⟨(e.name, e), Std.ExtTreeMap.mem_toList_iff_getElem?_eq_some.2 hc, rfl⟩

/-- The names shown ascend. -/
theorem pairwise_entries {s : Live} (h : s.Inv) :
    s.entries.Pairwise fun a b => a.name < b.name := by
  have hname : ∀ p ∈ s.committed.toList, p.2.name = p.1 := fun p hp =>
    ((h.fate p.1).committed p.2 (Std.ExtTreeMap.mem_toList_iff_getElem?_eq_some.1 hp)).1
  rw [entries_eq_sorted h, sorted, List.pairwise_map]
  refine List.Pairwise.imp_of_mem ?_ Std.ExtTreeMap.ordered_keys_toList
  intro p q hp hq hlt
  rw [hname p hp, hname q hq]
  exact (Text.compare_eq_lt_iff _ _).1 hlt

/-- Of a name the view shows what is committed for it. -/
theorem recordsOf_entries {s : Live} (h : s.Inv) (name : Text) :
    recordsOf name s.entries = (s.fate name).committed.toList := by
  have hmem : ∀ e, e ∈ recordsOf name s.entries ↔ (s.fate name).committed = some e := by
    intro e
    rw [mem_recordsOf, mem_entries h]
    constructor
    · rintro ⟨he, rfl⟩
      exact he
    · intro he
      obtain rfl := ((h.fate name).committed e he).1
      exact ⟨he, rfl⟩
  cases hl : recordsOf name s.entries with
  | nil =>
    cases hc : (s.fate name).committed with
    | none => rfl
    | some e => simp [hl] at hmem; exact absurd hc (hmem e)
  | cons e rest =>
    have hc : (s.fate name).committed = some e := (hmem e).1 (by rw [hl]; exact List.mem_cons_self)
    -- A second record would carry the same name, but the names shown ascend.
    have hrest : rest = [] := by
      refine List.eq_nil_iff_forall_not_mem.2 fun e' he' => ?_
      have hasc : (recordsOf name s.entries).Pairwise fun a b => a.name < b.name :=
        (pairwise_entries h).filter _
      rw [hl, List.pairwise_cons] at hasc
      have he : e.name = name := (mem_recordsOf.1 (by rw [hl]; exact List.mem_cons_self)).2
      have he'n : e'.name = name :=
        (mem_recordsOf.1 (by rw [hl]; exact List.mem_cons_of_mem e he')).2
      exact absurd (hasc.1 e' he') (by rw [he, he'n]; exact List.lt_irrefl name)
    rw [hrest, hc]
    rfl

/-! ## Blocks in turn -/

/-- Adds the entries of a block and ends it. -/
def feed (s : Live) (records : List Entry) : Live := (records.foldl add s).endBlock

theorem inv_foldl_add {s : Live} (h : s.Inv) (records : List Entry) :
    (records.foldl add s).Inv := by
  induction records generalizing s with
  | nil => exact h
  | cons e records ih => exact ih (inv_add h e)

theorem inv_feed {s : Live} (h : s.Inv) (records : List Entry) : (s.feed records).Inv :=
  inv_endBlock (inv_foldl_add h records)

theorem inv_foldl_feed {s : Live} (h : s.Inv) (blocks : List (List Entry)) :
    (blocks.foldl feed s).Inv := by
  induction blocks generalizing s with
  | nil => exact h
  | cons records blocks ih => exact ih (inv_feed h records)

theorem entries_foldl_add (s : Live) (records : List Entry) :
    (records.foldl add s).entries = s.entries := by
  induction records generalizing s with
  | nil => rfl
  | cons e records ih => rw [List.foldl_cons, ih, entries_add]

theorem fate_feed (s : Live) (records : List Entry) (name : Text) :
    (s.feed records).fate name = (s.fate name).feed (recordsOf name records) := by
  rw [feed, fate_endBlock, fate_foldl_add]
  rfl

theorem fate_foldl_feed (s : Live) (blocks : List (List Entry)) (name : Text) :
    (blocks.foldl feed s).fate name =
      (blocks.map (recordsOf name)).foldl Fate.feed (s.fate name) := by
  induction blocks generalizing s with
  | nil => rfl
  | cons records blocks ih =>
    rw [List.foldl_cons, ih, fate_feed]
    rfl

/-- Between two blocks nothing is staged. -/
theorem staged_foldl_feed {s : Live} (h : s.staged = ∅) (blocks : List (List Entry)) :
    (blocks.foldl feed s).staged = ∅ := by
  induction blocks generalizing s with
  | nil => exact h
  | cons records blocks ih => exact ih rfl

theorem staged_fate {s : Live} (h : s.staged = ∅) (name : Text) :
    (s.fate name).staged = none := by
  rw [fate, h]
  exact Std.ExtTreeMap.getElem?_empty

/-- What blocks leave of a name, the newest block first. -/
def reconciled (name : Text) (blocks : List (List Entry)) : Option Entry :=
  (blocks.find? (mentions name)).bind fun records => survivor (recordsOf name records)

theorem firstSurvivor_map_recordsOf (name : Text) (blocks : List (List Entry)) :
    firstSurvivor (blocks.map (recordsOf name)) = reconciled name blocks := by
  have hp : (fun records : List Entry => !records.isEmpty) ∘ recordsOf name = mentions name :=
    funext fun records => by simp [isEmpty_recordsOf]
  unfold firstSurvivor reconciled
  rw [List.find?_map, hp, Option.bind_map]
  rfl

/-- A fresh view that was fed blocks shows of a name what they leave of it. -/
theorem recordsOf_entries_foldl_feed (name : Text) (blocks : List (List Entry)) :
    recordsOf name (blocks.foldl feed empty).entries = (reconciled name blocks).toList := by
  rw [recordsOf_entries (inv_foldl_feed inv_empty blocks), fate_foldl_feed, fate_empty,
    Fate.foldl_feed Fate.unknown rfl, ← firstSurvivor_map_recordsOf]
  rfl

/-! ## Runs -/

/-- A call that changes a view. -/
inductive Step
  | add (e : Entry)
  | endBlock

def step (s : Live) : Step → Live
  | .add e => s.add e
  | .endBlock => s.endBlock

/-- A fresh view after a sequence of calls. -/
def run (steps : List Step) : Live := steps.foldl step empty

/-- Cuts a run where blocks end: the entries of each block that ends, and those added since.
`pending` are the entries added before the run to the block that is being read. -/
def cut (pending : List Entry) : List Step → List (List Entry) × List Entry
  | [] => ([], pending)
  | .add e :: steps => cut (pending ++ [e]) steps
  | .endBlock :: steps => (pending :: (cut [] steps).1, (cut [] steps).2)

/-- The blocks that end in a run, in the order of their feeding. -/
def finished (steps : List Step) : List (List Entry) := (cut [] steps).1

theorem foldl_step (s : Live) (pending : List Entry) (steps : List Step) :
    steps.foldl step (pending.foldl add s) =
      (cut pending steps).2.foldl add ((cut pending steps).1.foldl feed s) := by
  induction steps generalizing s pending with
  | nil => rfl
  | cons call steps ih =>
    cases call with
    | add e =>
      rw [cut, ← ih, List.foldl_append]
      rfl
    | endBlock => exact ih (s.feed pending) []

/-- A run shows what feeding its finished blocks shows. -/
theorem entries_run_eq (steps : List Step) :
    (run steps).entries = ((finished steps).foldl feed empty).entries := by
  rw [run, show empty = ([] : List Entry).foldl add empty from rfl, foldl_step, entries_foldl_add]
  rfl

theorem run_append_adds (steps : List Step) (added : List Entry) :
    run (steps ++ added.map .add) = added.foldl add (run steps) := by
  rw [run, List.foldl_append, List.foldl_map]
  rfl

/-- **Reconciliation.** After any run the names shown ascend. The first finished block that
mentions a name decides what is shown of it: nothing if the block holds a deletion of the name,
and else exactly the last record of the name in the block. No other name is shown, and what was
added since the last end of a block is not seen. -/
theorem entries_run (steps : List Step) :
    (run steps).entries.Pairwise (fun a b => a.name < b.name) ∧
      (∀ name,
        match (finished steps).find? (mentions name) with
        | none => recordsOf name (run steps).entries = []
        | some block =>
          if ∃ e ∈ block, e.name = name ∧ e.isDeleted = true then
            recordsOf name (run steps).entries = []
          else
            ∃ e, (recordsOf name block).getLast? = some e ∧
              recordsOf name (run steps).entries = [e]) ∧
      ∀ added : List Entry, (run (steps ++ added.map .add)).entries = (run steps).entries := by
  refine ⟨?_, fun name => ?_, fun added => ?_⟩
  · rw [entries_run_eq]
    exact pairwise_entries (inv_foldl_feed inv_empty _)
  · rw [entries_run_eq, recordsOf_entries_foldl_feed, reconciled]
    cases hfind : (finished steps).find? (mentions name) with
    | none => rfl
    | some block =>
      have hd : (∃ e ∈ block, e.name = name ∧ e.isDeleted = true) ↔
          anyDeleted (recordsOf name block) = true := by
        simp [anyDeleted, recordsOf]
      by_cases ha : anyDeleted (recordsOf name block) = true
      · simp [hd, ha, survivor]
      · -- A block that mentions the name has a last record of it.
        have hne : recordsOf name block ≠ [] := recordsOf_ne_nil (List.find?_some hfind)
        simp [hd, ha, survivor, List.getLast?_eq_some_getLast hne]
  · rw [run_append_adds, entries_foldl_add]

end Live
end ArchiveIndex
