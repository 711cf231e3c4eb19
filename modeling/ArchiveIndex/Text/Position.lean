/-!
# Positions in a Text

A reader works on what is left of a text and reports a fault by what was left there. The place
of the fault is the length of the part before it; editors also want its line and its column.
-/

namespace ArchiveIndex

/-- A place in a text: the number of characters before it, and its line and column, both
counted from 1. -/
structure Position where
  offset : Nat
  line : Nat
  column : Nat
deriving DecidableEq

namespace Position

/-- The place one character further on. -/
def next (p : Position) (c : Char) : Position :=
  if c = '\n' then ⟨p.offset + 1, p.line + 1, 1⟩ else ⟨p.offset + 1, p.line, p.column + 1⟩

/-- The place at the end of a text. -/
def after (read : List Char) : Position := read.foldl next ⟨0, 1, 1⟩

/-- The place in `text` where `rest` is left of it. -/
def ofRest (text rest : List Char) : Position := after (text.take (text.length - rest.length))

def message (p : Position) : String := s!"line {p.line} column {p.column} (char {p.offset})"

end Position

/-- What is left of `s` after something of it was read. -/
abbrev Rest {α : Type} (s : List α) := { r : List α // r.length < s.length }

end ArchiveIndex
