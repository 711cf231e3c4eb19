import ArchiveIndex.Block
import ArchiveIndex.Json.Display

/-!
# The Layout of a Dump

A dump is a JSON document with the blocks of an archive, whose entries and footers have been
read before:

* the document is an object with a list `blocks`;
* a block is an object with an integer `offset` that is not negative, a list `entries` and an
  object `footer`, each of which may be left out;
* a footer has the integers `entry_count`, `index_size` and `block_size`, and perhaps `crc32`;
* an entry has a string `name`, and perhaps the integers `mtime_ns`, `mode`, `flag`, `start`,
  `size`, `crc32` and `block_offset`.

An integer that is left out is 0, but a `block_offset` is that of the block. Other fields are of
no account. Readers check one thing after the other and report the first flaw.

A record checks its own fields when it is built, and raises an error of its own. Where entries and
footers are read, such an error is taken for a flaw of the dump, and a flaw is passed on as it is.
-/

namespace ArchiveIndex.Dump

/-- Why a document is no dump. -/
inductive Flaw
  | noBlockList
  | blockNoObject
  | negativeOffset
  | entriesNoList
  | footerNoObject
  | footerLacks (field : String)
  | footer (error : Block.Flaw)
  | entryNoObject
  | nameNoString
  | entry (name : Text) (error : Block.Flaw)
  | noInteger (field : String) (given : Json)

/-- A flaw in words. The value that stands in the place of an integer is shown here with integers of
any length. The program writes out none of more than 4300 digits, and in a document that was read
from a file there are none (`Dump.digitLimit`). -/
def Flaw.message : Flaw → String
  | noBlockList => "Dump must be an object with a 'blocks' list"
  | blockNoObject => "Block must be an object"
  | negativeOffset => "Block 'offset' must be >= 0"
  | entriesNoList => "Block 'entries' must be a list"
  | footerNoObject => "Footer must be an object"
  | footerLacks field => s!"Footer is missing {Quoted.quoted field}"
  | footer error => s!"Invalid footer: {error.message}"
  | entryNoObject => "Entry must be an object"
  | nameNoString => "Entry 'name' must be a string"
  | entry name error => s!"Invalid entry {Quoted.quoted name}: {error.message}"
  | noInteger field given =>
    s!"Field {Quoted.quoted field} must be an integer, got {given.displayed}"

/-- What reading a dump may raise: a flaw of the dump, or the error of a record that could not be
built. -/
inductive Raised
  | flaw (flaw : Flaw)
  | record (error : Block.Flaw)

def Raised.message : Raised → String
  | .flaw f => f.message
  | .record error => error.message

/-- Takes the error of a record for a flaw. -/
def rescue {α : Type} (flawOf : Block.Flaw → Flaw) : Except Raised α → Except Raised α
  | .error (.record error) => .error (.flaw (flawOf error))
  | other => other

/-- The fields of an object. -/
abbrev Fields := List (Text × Json)

/-- An integer field, or its default if it is left out. -/
def intField (fields : Fields) (name : String) (default : Int) : Except Raised Int :=
  match Json.field? fields name with
  | none => .ok default
  | some (.int n) => .ok n
  | some given => .error (.flaw (.noInteger name given))

/-- Builds an entry of a draft. -/
def buildEntry (draft : Entry.Draft) : Except Raised Entry :=
  draft.check.mapError fun flaw => .record (.entry flaw)

/-- Builds a footer of a draft. -/
def buildFooter (draft : Footer.Draft) : Except Raised Footer :=
  draft.check.mapError fun flaw => .record (.footer flaw)

/-- Reads the fields of an entry of a block at the given offset. -/
def readEntryFields (blockOffset : Int) (fields : Fields) : Except Raised Entry := do
  let some (.str name) := Json.field? fields "name" | throw (.flaw .nameNoString)
  let mtimeNs ← intField fields "mtime_ns" 0
  let mode ← intField fields "mode" 0
  let flag ← intField fields "flag" 0
  let start ← intField fields "start" 0
  let size ← intField fields "size" 0
  let crc32 ← intField fields "crc32" 0
  rescue (.entry name) do
    let blockOffset ← intField fields "block_offset" blockOffset
    buildEntry { name, mtimeNs, mode, flag, blockOffset, start, size, crc32 }

/-- Reads an entry of a block at the given offset. -/
def readEntry (blockOffset : Int) : Json → Except Raised Entry
  | .obj fields => readEntryFields blockOffset fields
  | _ => .error (.flaw .entryNoObject)

/-- Checks that a footer has a field. -/
def requireField (fields : Fields) (name : String) : Except Raised Unit :=
  if (Json.field? fields name).isSome then .ok () else .error (.flaw (.footerLacks name))

/-- Reads the fields of a footer. -/
def readFooterFields (fields : Fields) : Except Raised Footer := do
  requireField fields "entry_count"
  requireField fields "index_size"
  requireField fields "block_size"
  rescue .footer do
    let entryCount ← intField fields "entry_count" 0
    let indexSize ← intField fields "index_size" 0
    let blockSize ← intField fields "block_size" 0
    let crc32 ← intField fields "crc32" 0
    buildFooter { entryCount, indexSize, blockSize, crc32 }

/-- Reads the footer of a block, where `null` is as good as none. -/
def readFooter : Option Json → Except Raised (Option Footer)
  | none | some .null => .ok none
  | some (.obj fields) => (readFooterFields fields).map some
  | some _ => .error (.flaw .footerNoObject)

/-- The entries of a block before they are read. -/
def entryList (fields : Fields) : Except Raised (List Json) :=
  match Json.field? fields "entries" with
  | none => .ok []
  | some (.arr items) => .ok items
  | some _ => .error (.flaw .entriesNoList)

/-- Reads the fields of a block. -/
def readBlockFields (fields : Fields) : Except Raised Block := do
  let offset ← intField fields "offset" 0
  if offset < 0 then throw (.flaw .negativeOffset)
  let items ← entryList fields
  let footer ← readFooter (Json.field? fields "footer")
  let entries ← items.mapM (readEntry offset)
  return { offset, entries, footer }

/-- Reads a block. -/
def readBlock : Json → Except Raised Block
  | .obj fields => readBlockFields fields
  | _ => .error (.flaw .blockNoObject)

/-- Reads the blocks of a dump. -/
def readBlocks : Json → Except Raised (List Block)
  | .obj fields =>
    match Json.field? fields "blocks" with
    | some (.arr items) => items.mapM readBlock
    | _ => .error (.flaw .noBlockList)
  | _ => .error (.flaw .noBlockList)

end ArchiveIndex.Dump
