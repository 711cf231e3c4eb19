import Mathlib.Data.List.Induction
import ArchiveIndex.Index.Live

/-!
# The fate of a name

A live view keeps three containers, but no name ever looks at another's place in them. What a
view knows of one name is the name's *fate*: the entry committed for it, the entry staged for
it, and whether it was deleted. An entry moves the fate of its own name only (`fate_add`), and
the end of a block moves every fate by the same rule (`fate_endBlock`). A run can therefore be
followed name by name, on records of that name alone.

**Closed form (`Fate.foldl_feed`).** From a state between two blocks, the blocks that follow
commit what survives of the first of them that has a record of the name, unless something is
committed already or the name is deleted. A block that deletes the name anywhere leaves nothing
of it; otherwise the last record survives.
-/

namespace ArchiveIndex

/-- What a live view knows of one name. -/
structure Fate where
  committed : Option Entry
  staged : Option Entry
  deleted : Bool

/-- Whether one of the records is a deletion. -/
def anyDeleted (records : List Entry) : Bool := records.any fun e => e.isDeleted

/-- What is left of the records that one block has of a name. -/
def survivor (records : List Entry) : Option Entry :=
  if anyDeleted records then none else records.getLast?

theorem anyDeleted_eq_false_iff {records : List Entry} :
    anyDeleted records = false ↔ ∀ e ∈ records, e.isDeleted = false := by
  simp [anyDeleted]

theorem survivor_eq_some {records : List Entry} {e : Entry} (h : survivor records = some e) :
    (∀ e ∈ records, e.isDeleted = false) ∧ records.getLast? = some e := by
  unfold survivor at h
  split at h
  · simp at h
  · rename_i hd
    exact ⟨anyDeleted_eq_false_iff.1 (Bool.eq_false_iff.2 hd), h⟩

theorem survivor_eq_none_iff {records : List Entry} (h : records ≠ []) :
    survivor records = none ↔ anyDeleted records = true := by
  unfold survivor
  split
  · simp [*]
  · simp [*]

/-- What is left of a name of which each block has the given records, the newest block first:
the first block that has any decides. -/
def firstSurvivor (blocks : List (List Entry)) : Option Entry :=
  (blocks.find? fun records => !records.isEmpty).bind survivor

namespace Fate

/-- The fate of a name of which nothing was said yet. -/
def unknown : Fate := ⟨none, none, false⟩

/-- The fate after a record of the name. -/
def add (f : Fate) (e : Entry) : Fate :=
  if e.isDeleted then { f with staged := none, deleted := true }
  else if f.deleted then f
  else { f with staged := some e }

/-- The fate after the end of a block. -/
def endBlock (f : Fate) : Fate := { f with committed := f.committed.or f.staged, staged := none }

/-- The fate after a block that has the given records of the name. -/
def feed (f : Fate) (records : List Entry) : Fate := (records.foldl add f).endBlock

/-- Nothing is staged for a deleted name, and what is held is a record of the name with
content. -/
structure Inv (name : Text) (f : Fate) : Prop where
  committed : ∀ e, f.committed = some e → e.name = name ∧ e.isDeleted = false
  staged : ∀ e, f.staged = some e → e.name = name ∧ e.isDeleted = false
  not_deleted : f.deleted = true → f.staged = none

theorem inv_unknown (name : Text) : Inv name unknown :=
  ⟨fun _ h => by simp [unknown] at h, fun _ h => by simp [unknown] at h, fun _ => rfl⟩

theorem inv_add {name : Text} {f : Fate} {e : Entry} (h : Inv name f) (he : e.name = name) :
    Inv name (f.add e) := by
  unfold add
  by_cases hd : e.isDeleted
  · rw [if_pos hd]
    exact ⟨h.committed, fun _ h => by simp at h, fun _ => rfl⟩
  · rw [if_neg hd]
    by_cases hf : f.deleted
    · rw [if_pos hf]
      exact h
    · rw [if_neg hf]
      refine ⟨h.committed, fun e' he' => ?_, fun h => absurd h hf⟩
      obtain rfl : e = e' := by simpa using he'
      exact ⟨he, by simpa using hd⟩

theorem inv_endBlock {name : Text} {f : Fate} (h : Inv name f) : Inv name f.endBlock := by
  refine ⟨fun e he => ?_, fun _ he => by simp [endBlock] at he, fun _ => rfl⟩
  rcases Option.or_eq_some_iff.1 he with hc | ⟨-, hs⟩
  · exact h.committed e hc
  · exact h.staged e hs

/-! ## The records of one block -/

@[simp] theorem anyDeleted_concat (records : List Entry) (e : Entry) :
    anyDeleted (records ++ [e]) = (anyDeleted records || e.isDeleted) := by
  simp [anyDeleted]

/-- Within a block the last write is staged, and a deletion anywhere clears the stage for
good. -/
theorem foldl_add (f : Fate) (hf : f.deleted = true → f.staged = none) (records : List Entry) :
    records.foldl add f =
      { committed := f.committed
        staged := if f.deleted || anyDeleted records then none else records.getLast?.or f.staged
        deleted := f.deleted || anyDeleted records } := by
  induction records using List.reverseRecOn with
  | nil =>
    obtain ⟨committed, staged, deleted⟩ := f
    cases deleted with
    | true => simpa [anyDeleted] using hf
    | false => simp [anyDeleted]
  | append_singleton records e ih =>
    rw [List.foldl_append, ih, List.foldl_cons, List.foldl_nil, anyDeleted_concat,
      List.getLast?_concat]
    cases he : e.isDeleted with
    | true => simp [add, he]
    | false => cases hd : f.deleted || anyDeleted records <;> simp [add, he, hd]

/-- A block commits what survives of its records, if the name is neither committed nor
deleted. -/
theorem feed_eq (f : Fate) (hf : f.staged = none) (records : List Entry) :
    f.feed records =
      { committed := f.committed.or (if f.deleted then none else survivor records)
        staged := none
        deleted := f.deleted || anyDeleted records } := by
  unfold feed
  rw [foldl_add f (fun _ => hf), hf]
  cases hd : f.deleted <;> simp [endBlock, survivor]

/-! ## Block after block -/

@[simp] theorem firstSurvivor_nil : firstSurvivor [] = none := rfl

theorem firstSurvivor_cons (records : List Entry) (blocks : List (List Entry)) :
    firstSurvivor (records :: blocks) =
      if records = [] then firstSurvivor blocks else survivor records := by
  cases records <;> simp [firstSurvivor]

/-- Blocks in turn commit what the first of them with a record of the name leaves of it. -/
theorem foldl_feed (f : Fate) (hf : f.staged = none) (blocks : List (List Entry)) :
    blocks.foldl feed f =
      { committed := f.committed.or (if f.deleted then none else firstSurvivor blocks)
        staged := none
        deleted := f.deleted || blocks.any anyDeleted } := by
  induction blocks generalizing f with
  | nil => cases f; simp_all
  | cons records blocks ih =>
    rw [List.foldl_cons, feed_eq f hf, ih _ rfl, firstSurvivor_cons]
    cases hd : f.deleted with
    | true => simp
    | false =>
      cases records with
      | nil => simp [survivor, anyDeleted]
      | cons e rest =>
        -- A block with a record of the name either deletes the name or commits its last record.
        cases ha : anyDeleted (e :: rest) with
        | true => simp [survivor, ha]
        | false => simp [survivor, ha, List.getLast?_cons]

end Fate
end ArchiveIndex
