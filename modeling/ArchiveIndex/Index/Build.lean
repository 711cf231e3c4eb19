import ArchiveIndex.Index.Basic

/-!
# Building an Index

Blocks come in any order and are fed in the order that the kind of index needs: the live view
takes the newest first, the full history the oldest first. Building stops at the first block
whose footer declares another number of entries than it has. What was done is logged.
-/

namespace ArchiveIndex

/-- A step of building an index. -/
inductive Event
  | ingested (offset : Int) (count : Nat)
  | built (kind : Kind) (blocks entries : Nat)
deriving DecidableEq

def Event.message : Event → String
  | ingested offset count => s!"Ingested block at offset {offset} ({count} entries)"
  | built kind blocks entries =>
    s!"Built {kind.name} index from {blocks} block(s): {entries} entries"

namespace Index

/-- The order in which an index of the kind takes blocks. The order for the full history is that
for the live view reversed, so blocks at one offset are reversed as well. -/
def feedingOrder (blocks : List Block) : Kind → List Block
  | .filtered => Block.newestFirst blocks
  | .complete => (Block.newestFirst blocks).reverse

/-- Feeds blocks in the given order, up to the first mismatch. -/
def feedAll (index : Index) : List Block → List Event × Except CountMismatch Index
  | [] => ([], .ok index)
  | b :: blocks =>
    match index.feed b with
    | .error m => ([], .error m)
    | .ok index' =>
      let (events, result) := feedAll index' blocks
      (.ingested b.offset b.entries.length :: events, result)

/-- An index built from blocks, or the mismatch that prevented it, with the log. -/
structure Build where
  events : List Event
  result : Except CountMismatch Index

/-- Builds an index of the given kind. -/
def build (kind : Kind) (blocks : List Block) : Build :=
  match feedAll (empty kind) (feedingOrder blocks kind) with
  | (events, .error m) => ⟨events, .error m⟩
  | (events, .ok index) =>
    ⟨events ++ [.built kind blocks.length index.entries.length], .ok index.refresh⟩

end Index
end ArchiveIndex
