import ArchiveIndex.Dump.Schema
import ArchiveIndex.Json.Reader
import ArchiveIndex.Text.Newline
import ArchiveIndex.Text.Utf8

/-!
# Loading a Dump

From the bytes of a file to the blocks it describes: the bytes are UTF-8, lines may end in any
of the three ways, the text is a JSON document, and the document is laid out as a dump.
-/

namespace ArchiveIndex.Dump

/-- The digits that an integer of a dump may have. -/
def digitLimit : Nat := 4300

/-- Why no blocks come of a file. -/
inductive LoadError
  | encoding (fault : Utf8.Fault)
  | document (fault : Json.Fault)
  | layout (raised : Raised)

/-- The error in words, for a file at the given path. -/
def LoadError.message (path : Text) : LoadError → Text
  | encoding fault => path ++ Text.ofString s!": not a valid UTF-8 JSON dump ({fault.message})"
  | document fault => path ++ Text.ofString s!": not a valid UTF-8 JSON dump ({fault.message})"
  | layout raised => raised.message

/-- The text of a file, with every line ending written as a line feed. -/
def readText (bytes : List UInt8) : Except Utf8.Fault (List Char) :=
  (Utf8.decode bytes).map Newline.unify

/-- The blocks that a file describes. -/
def load (bytes : List UInt8) : Except LoadError (List Block) := do
  let text ← (readText bytes).mapError .encoding
  let document ← (Json.read (some digitLimit) text).mapError .document
  (readBlocks document).mapError .layout

end ArchiveIndex.Dump
