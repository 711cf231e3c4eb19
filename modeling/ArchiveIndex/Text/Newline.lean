/-!
# Line Endings

A text file may end its lines with a line feed, with a carriage return, or with both. Readers
see a line feed for each of the three.
-/

namespace ArchiveIndex.Newline

/-- Writes every line ending as one line feed. -/
def unify : List Char → List Char
  | [] => []
  | c :: rest =>
    if c = '\r' then
      if rest.head? = some '\n' then unify rest else '\n' :: unify rest
    else c :: unify rest

/-- The ways to end a line. -/
inductive Ending
  | lf
  | crlf
  | cr
deriving DecidableEq

/-- The characters of a line ending. -/
def Ending.chars : Ending → List Char
  | lf => ['\n']
  | crlf => ['\r', '\n']
  | cr => ['\r']

/-- Writes a text whose lines end with line feeds with another line ending. -/
def Ending.write (ending : Ending) (text : List Char) : List Char :=
  text.flatMap fun c => if c = '\n' then ending.chars else [c]

end ArchiveIndex.Newline
