import ArchiveIndex.Json.Display

/-!
# Kinds of Index

There are two ways to reconcile the entries of many blocks. The *complete* index keeps every
entry; the *filtered* one keeps the latest entry of each name that has not been deleted.
-/

namespace ArchiveIndex

inductive Kind
  | complete
  | filtered
deriving DecidableEq

namespace Kind

def name : Kind → String
  | complete => "complete"
  | filtered => "filtered"

/-- A value that names no kind of index. -/
structure Unknown where
  given : Json

def Unknown.message (u : Unknown) : String := "Unknown index kind: " ++ u.given.displayed

/-- The kind that a value names. -/
def ofValue (given : Json) : Except Unknown Kind :=
  match given with
  | .str t =>
    if t = Text.ofString complete.name then .ok complete
    else if t = Text.ofString filtered.name then .ok filtered
    else .error ⟨given⟩
  | _ => .error ⟨given⟩

end Kind
end ArchiveIndex
