import ArchiveIndex.Index.Procedure

/-!
# Working with an Index

A session is a sequence of requests to one index, each answered in turn. A request that changes
the index is answered with a glance at what the index has become. A request may be refused, and
the session then goes on with the index as the refused request left it.
-/

namespace ArchiveIndex.Index

/-- What can be asked of an index. -/
inductive Request
  | add (entry : Entry.Draft)
  | endBlock
  | feed (block : Block.Draft)
  | inspect
  | entries
  | glob (pattern : Text)

/-- What an index shows at a glance. -/
structure Summary where
  names : List Text
  size : Nat
  deletedNames : Option (List Text)

inductive Response
  | summary (summary : Summary)
  | entries (entries : List Entry)
  | refused (refusal : Refusal)

/-- Shows what the index has become. -/
def glance : Procedure Response := do
  let shown ← Procedure.entries
  let deletedNames ← Procedure.deletedNames
  return .summary { names := shown.map (·.name), size := shown.length, deletedNames }

def Request.procedure : Request → Procedure Response
  | .add draft => do
    Procedure.add draft
    glance
  | .endBlock => do
    Procedure.endBlock
    glance
  | .feed draft => do
    Procedure.feed draft
    glance
  | .inspect => glance
  | .entries => return .entries (← Procedure.entries)
  | .glob pattern => return .entries (← Procedure.glob pattern)

/-- The response to a request of which this came. -/
def Response.ofOutcome : Except Refusal Response → Response
  | .ok response => response
  | .error refusal => .refused refusal

/-- Answers requests one after the other. -/
def answers (index : Index) (requests : List Request) : List Response :=
  (Procedure.performEach Request.procedure index requests).1.map Response.ofOutcome

end ArchiveIndex.Index
