import ArchiveIndex.Decimal.Notation
import ArchiveIndex.Json.Value

/-!
# Writing JSON

Writes a value as a document, on one line or indented, with all characters as they are or with
escapes for those outside ASCII. Line breaks stand only between the parts of an indented
document: inside strings they are escaped.
-/

namespace ArchiveIndex.Json

/-- Where a document has blanks: nowhere, after each comma and colon, or so that each item and
field has a line of its own, set in by a width for each level. -/
inductive Spacing
  | compact
  | spaced
  | indented (width : Nat)
deriving DecidableEq

/-- How a document is laid out, and whether characters outside ASCII are escaped. -/
structure Layout where
  spacing : Spacing
  asciiOnly : Bool
deriving DecidableEq

/-- What stands between two items or fields, before a line break. -/
def Spacing.comma : Spacing → List Char
  | spaced => [',', ' ']
  | _ => [',']

/-- What stands between the name of a field and its value. -/
def Spacing.colon : Spacing → List Char
  | compact => [':']
  | _ => [':', ' ']

/-- What separates the parts of a list or object at a depth. -/
def Spacing.lineBreak (depth : Nat) : Spacing → List Char
  | indented width => '\n' :: List.replicate (width * depth) ' '
  | _ => []

/-! ## Strings -/

/-- The escape of a 16-bit unit. -/
def escapeUnit (n : Nat) : List Char := '\\' :: 'u' :: Numeral.hex 4 n

/-- The escape of a code point: beyond U+FFFF a surrogate pair. -/
def escapeCode (p : CodePoint) : List Char :=
  if p.val < 0x10000 then escapeUnit p.val
  else
    escapeUnit (0xD800 + (p.val - 0x10000) / 0x400) ++
      escapeUnit (0xDC00 + (p.val - 0x10000) % 0x400)

/-- A code point inside a string. A lone surrogate is always escaped, as it is no character. -/
def writeCode (l : Layout) (p : CodePoint) : List Char :=
  match p.toChar? with
  | none => escapeUnit p.val
  | some c =>
    if c = '"' ∨ c = '\\' then ['\\', c]
    else if c = '\n' then ['\\', 'n']
    else if c = '\r' then ['\\', 'r']
    else if c = '\t' then ['\\', 't']
    else if c = '\x0c' then ['\\', 'f']
    else if c = '\x08' then ['\\', 'b']
    else if p.val < 0x20 then escapeUnit p.val
    else if l.asciiOnly && 0x7F ≤ p.val then escapeCode p
    else [c]

def writeText (l : Layout) (t : Text) : List Char := '"' :: t.flatMap (writeCode l) ++ ['"']

/-! ## Values -/

def writeFloat : Binary64 → List Char
  | .finite negative significand exponent =>
    Binary64.signed negative (Binary64.magnitude significand exponent)
  | .infinity negative => Binary64.signed negative "Infinity".toList
  | .nan => "NaN".toList

mutual

/-- Writes a value that stands at a depth of the document. -/
def write (l : Layout) (depth : Nat) : Json → List Char
  | .null => "null".toList
  | .bool true => "true".toList
  | .bool false => "false".toList
  | .int n => Numeral.ofInt n
  | .float x => writeFloat x
  | .str t => writeText l t
  | .arr [] => ['[', ']']
  | .arr (item :: items) =>
    '[' :: l.spacing.lineBreak (depth + 1) ++ write l (depth + 1) item ++
      writeItems l (depth + 1) items ++ l.spacing.lineBreak depth ++ [']']
  | .obj [] => ['\x7b', '\x7d']
  | .obj ((name, value) :: fields) =>
    '\x7b' :: l.spacing.lineBreak (depth + 1) ++ writeText l name ++ l.spacing.colon ++
      write l (depth + 1) value ++ writeFields l (depth + 1) fields ++
      l.spacing.lineBreak depth ++ ['\x7d']

/-- Writes the items of a list after the first, each with the comma before it. -/
def writeItems (l : Layout) (depth : Nat) : List Json → List Char
  | [] => []
  | item :: items =>
    l.spacing.comma ++ l.spacing.lineBreak depth ++ write l depth item ++ writeItems l depth items

/-- Writes the fields of an object after the first, each with the comma before it. -/
def writeFields (l : Layout) (depth : Nat) : List (Text × Json) → List Char
  | [] => []
  | (name, value) :: fields =>
    l.spacing.comma ++ l.spacing.lineBreak depth ++ writeText l name ++ l.spacing.colon ++
      write l depth value ++ writeFields l depth fields

end

/-- Writes a document. -/
def writeDocument (l : Layout) (v : Json) : List Char := write l 0 v

end ArchiveIndex.Json
