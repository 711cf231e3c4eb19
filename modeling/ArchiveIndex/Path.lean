import ArchiveIndex.Text.CodePoint

/-!
# Paths

Names in an archive are paths with `/` between their segments. Two spellings of a path may
differ in repeated separators and in one at the end; the normal form has neither.
-/

namespace ArchiveIndex.Path

/-- The character between two segments. -/
def separator : CodePoint := '/'

/-- Writes a run of separators as one. -/
def collapse : Text → Text
  | [] => []
  | c :: rest =>
    if c = separator ∧ rest.head? = some separator then collapse rest else c :: collapse rest

/-- Leaves out a separator at the end, unless it is the whole text. -/
def dropTrailing (name : Text) : Text :=
  if 1 < name.length ∧ name.getLast? = some separator then name.dropLast else name

/-- The normal form of a path. -/
def normalize (name : Text) : Text := dropTrailing (collapse name)

end ArchiveIndex.Path
