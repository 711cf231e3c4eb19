import ArchiveIndex.Index.Basic

/-!
# Calls to an index

An index is changed in place, and a call to it may be refused. Nothing takes back what was done
to the index until then, so a `Procedure` leaves an index behind in either case. That a refused
call leaves it as it was is a matter of the order of steps: what can fail comes before what
changes the index.
-/

namespace ArchiveIndex.Index

/-- Why a call is refused. -/
inductive Refusal
  | entry (flaw : Entry.Flaw)
  | block (flaw : Block.Flaw)
  | mismatch (mismatch : CountMismatch)
  | pattern (rejection : Glob.Rejection)

/-- Steps on an index, which may break off. -/
abbrev Procedure := ExceptT Refusal (StateM Index)

namespace Procedure

variable {ε ι α β : Type}

/-- What comes of a procedure, and the index that it leaves. -/
def perform (p : Procedure α) (index : Index) : Except Refusal α × Index := p.run.run index

/-- Performs procedures one after the other, whether or not those before were refused. -/
def performEach (procedure : ι → Procedure α) (index : Index) :
    List ι → List (Except Refusal α) × Index
  | [] => ([], index)
  | i :: items =>
    let (outcome, index') := perform (procedure i) index
    let (outcomes, last) := performEach procedure index' items
    (outcome :: outcomes, last)

/-- What follows begins with the index that was left, and is not done after a refusal. -/
theorem perform_bind (p : Procedure α) (next : α → Procedure β) (index : Index) :
    perform (p >>= next) index =
      match perform p index with
      | (.ok a, index') => perform (next a) index'
      | (.error refusal, index') => (.error refusal, index') := by
  unfold perform
  rw [ExceptT.run_bind, StateT.run_bind]
  obtain ⟨outcome, index'⟩ := p.run.run index
  cases outcome <;> rfl

/-! ## What an index does when it is called -/

/-- Goes on with what passed a check, or breaks off. -/
def require (why : ε → Refusal) : Except ε α → Procedure α
  | .ok a => pure a
  | .error e => throw (why e)

/-- Breaks off if the footer of a block declares another number of entries. -/
def verify (b : Block) : Procedure Unit :=
  match b.mismatch? with
  | some m => throw (.mismatch m)
  | none => pure ()

def add (draft : Entry.Draft) : Procedure Unit := do
  let e ← require .entry draft.check
  modify fun index => index.add e

def endBlock : Procedure Unit := modify Index.endBlock

/-- Adds entries one by one. -/
def addEach (records : List Entry) : Procedure Unit :=
  records.forM fun e => modify fun index => index.add e

/-- The block is compared with its footer before the first of its entries is added. -/
def feed (draft : Block.Draft) : Procedure Unit := do
  let b ← require .block draft.check
  verify b
  addEach b.entries
  endBlock

/-- The entries are asked for, and a live view then keeps them sorted. -/
def entries : Procedure (List Entry) := modifyGet fun index => (index.entries, index.refresh)

/-- The pattern is compiled before the entries are asked for. -/
def glob (pattern : Text) : Procedure (List Entry) := do
  let r ← require .pattern (Glob.compile pattern)
  let shown ← entries
  return shown.filter fun e => r.selects e.name

def deletedNames : Procedure (Option (List Text)) := do
  return (← get).deletedNames?

end Procedure

/-- What can be asked of an index. -/
inductive Call
  | add (entry : Entry.Draft)
  | endBlock
  | feed (block : Block.Draft)
  | entries
  | size
  | glob (pattern : Text)
  | deletedNames

inductive Reply
  | done
  | entries (entries : List Entry)
  | size (n : Nat)
  | names (names : Option (List Text))

def Call.procedure : Call → Procedure Reply
  | .add draft => do
    Procedure.add draft
    return .done
  | .endBlock => do
    Procedure.endBlock
    return .done
  | .feed draft => do
    Procedure.feed draft
    return .done
  | .entries => return .entries (← Procedure.entries)
  | .size => return .size (← Procedure.entries).length
  | .glob pattern => return .entries (← Procedure.glob pattern)
  | .deletedNames => return .names (← Procedure.deletedNames)

end ArchiveIndex.Index
