import ArchiveIndex.Block
import ArchiveIndex.Json.Value

/-!
# Writing a Dump

The document that describes blocks, with every field written out.
-/

namespace ArchiveIndex.Dump

/-- A field with its name. -/
def field (name : String) (value : Json) : Text × Json := (Text.ofString name, value)

def ofEntry (e : Entry) : Json :=
  .obj
    [field "name" (.str e.name), field "mtime_ns" (.int e.mtimeNs),
      field "mode" (.int e.mode), field "flag" (.int e.flag),
      field "block_offset" (.int e.blockOffset), field "start" (.int e.start),
      field "size" (.int e.size), field "crc32" (.int e.crc32)]

def ofFooter (f : Footer) : Json :=
  .obj
    [field "entry_count" (.int f.entryCount), field "index_size" (.int f.indexSize),
      field "block_size" (.int f.blockSize), field "crc32" (.int f.crc32)]

/-- A block that has no footer has a `null` in its place. -/
def ofBlock (b : Block) : Json :=
  .obj
    [field "offset" (.int b.offset), field "footer" ((b.footer.map ofFooter).getD .null),
      field "entries" (.arr (b.entries.map ofEntry))]

/-- The document that describes blocks. -/
def ofBlocks (blocks : List Block) : Json := .obj [field "blocks" (.arr (blocks.map ofBlock))]

end ArchiveIndex.Dump
