import ArchiveIndex.Numeral
import ArchiveIndex.Text.CodePoint
import ArchiveIndex.Text.Printable

/-!
# Quoted Text

How messages show a text: between single quotes, or between double quotes if that saves
escaping. The quote in use and the backslash get a backslash, the usual controls their letters,
and whatever else is not printable its code point in hexadecimal.
-/

namespace ArchiveIndex.Quoted

/-- The quotes around a text: double ones only if it has single quotes and no double ones. -/
def quoteMark (t : Text) : Char :=
  if ('\'' : CodePoint) ∈ t ∧ ('"' : CodePoint) ∉ t then '"' else '\''

/-- The code point of a character that does not show as itself. -/
def escapeNumber (p : Nat) : List Char :=
  if p < 0x100 then '\\' :: 'x' :: Numeral.hex 2 p
  else if p < 0x10000 then '\\' :: 'u' :: Numeral.hex 4 p
  else '\\' :: 'U' :: Numeral.hex 8 p

/-- How one code point shows between the given quotes. -/
def escape (mark : Char) (p : CodePoint) : List Char :=
  match p.toChar? with
  | none => escapeNumber p.val
  | some c =>
    if c = mark ∨ c = '\\' then ['\\', c]
    else if c = '\n' then ['\\', 'n']
    else if c = '\r' then ['\\', 'r']
    else if c = '\t' then ['\\', 't']
    else if Printable.isPrintable p.val then [c]
    else escapeNumber p.val

/-- The text between its quotes. -/
def quote (t : Text) : List Char :=
  let mark := quoteMark t
  mark :: t.flatMap (escape mark) ++ [mark]

/-- The text between its quotes, as a string. -/
def quoted (t : Text) : String := String.ofList (quote t)

example : quoted "it's" = "\"it's\"" := by cbv
example : quoted "a\tb" = "'a\\tb'" := by cbv

end ArchiveIndex.Quoted
