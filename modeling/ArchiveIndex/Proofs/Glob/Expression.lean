import ArchiveIndex.Glob.Regex
import Mathlib.Computability.Language

/-!
# Regular expressions as texts

What a text means as a regular expression, said without the patterns that such texts are made
from. `Expression` is the usual syntax over sets of characters and `Expression.language` its
usual meaning. `Expression.read` reads the notation: characters, `.` for any of them, sets in
brackets, `*` after what it repeats, `|` between alternatives and `(?:` … `)` around them. A
backslash takes the meaning from the next character, unless that is a letter or a digit. Any
other use of a character that has a meaning in the notation is refused, so that what is read
has one reading only.

The reader goes through the text once. `Reading` is its state: the frame of the group it is in,
the frames of the groups around that, and how far it has come in a set or an opening brace.
-/

namespace ArchiveIndex.Glob

open scoped Computability

/-- A regular expression over sets of characters. -/
inductive Expression
  | empty
  | set (s : CharSet)
  | star (e : Expression)
  | seq (e e' : Expression)
  | alt (e e' : Expression)

namespace Expression

/-- The texts in the language of an expression. -/
def language : Expression → Language CodePoint
  | empty => 1
  | set s => {w | ∃ x, w = [x] ∧ s.contains x = true}
  | star e => e.language∗
  | seq e e' => e.language * e'.language
  | alt e e' => e.language + e'.language

/-! ## Groups -/

/-- A group that is being read: the alternatives that a bar has closed, and the branch after
them, with the part that a star would repeat kept apart. -/
structure Frame where
  closed : Option Expression
  front : Expression
  last : Option Expression

namespace Frame

/-- Nothing has been read. -/
def new : Frame := ⟨none, .empty, none⟩

/-- The branch after the last bar. -/
def branch (f : Frame) : Expression :=
  match f.last with
  | none => f.front
  | some e => .seq f.front e

/-- All alternatives. -/
def whole (f : Frame) : Expression :=
  match f.closed with
  | none => f.branch
  | some e => .alt e f.branch

def push (f : Frame) (e : Expression) : Frame := ⟨f.closed, f.branch, some e⟩

/-- A star needs something to repeat, and does not follow another. -/
def repeatLast (f : Frame) : Option Frame :=
  f.last.map fun e => ⟨f.closed, .seq f.front (.star e), none⟩

def bar (f : Frame) : Frame := ⟨some f.whole, .empty, none⟩

end Frame

/-! ## The reader -/

/-- How far the reader has come: between parts, after `(`, after `(?`, after `[`, among the
members of a set, or after the dash of a range. The last member comes first. -/
inductive Mode
  | plain
  | group
  | groupMark
  | set
  | members (negated : Bool) (items : List ClassItem)
  | range (negated : Bool) (items : List ClassItem) (low : CodePoint)

/-- The state of the reader; `quoting` after a backslash. -/
structure Reading where
  quoting : Bool
  mode : Mode
  frame : Frame
  outer : List Frame

/-- The characters that have a meaning outside of sets. -/
def operators : Text := .ofString "\\.*+?^$|()[]\x7b\x7d"

/-- The characters that have a meaning in sets, or are kept for one. -/
def setOperators : Text := .ofString "\\[]^-&~|"

/-- A letter or a digit of ASCII, which a backslash would give a meaning. -/
def isAlphanum (c : CodePoint) : Bool := c.toChar?.any Char.isAlphanum

namespace Reading

/-- Between two parts of the group `f`. -/
def between (f : Frame) (outer : List Frame) : Reading := ⟨false, .plain, f, outer⟩

/-- After the opening bracket of a set. -/
def opened (f : Frame) (outer : List Frame) : Reading := ⟨false, .set, f, outer⟩

/-- Among the members of a set. -/
def among (negated : Bool) (items : List ClassItem) (f : Frame) (outer : List Frame) : Reading :=
  ⟨false, .members negated items, f, outer⟩

/-- Reads a character between two parts. -/
def takePlain (σ : Reading) (quoted : Bool) (c : CodePoint) : Option Reading :=
  if quoted ∨ c ∉ operators then some (between (σ.frame.push (.set (.literal c))) σ.outer)
  else if c = '.' then some (between (σ.frame.push (.set .any)) σ.outer)
  else if c = '*' then σ.frame.repeatLast.map fun f => between f σ.outer
  else if c = '|' then some (between σ.frame.bar σ.outer)
  else if c = '[' then some { σ with mode := .set }
  else if c = '(' then some { σ with mode := .group }
  else if c = ')' then
    match σ.outer with
    | [] => none
    | f :: outer => some (between (f.push σ.frame.whole) outer)
  else none

/-- Reads a character among the members of a set. -/
def takeMember (σ : Reading) (negated : Bool) (items : List ClassItem) (quoted : Bool)
    (c : CodePoint) : Option Reading :=
  if quoted ∨ c ∉ setOperators then some { σ with mode := .members negated (.single c :: items) }
  else if c = ']' ∧ items ≠ [] then
    some (between (σ.frame.push (.set (.bracket negated items.reverse))) σ.outer)
  else if c = '-' then
    match items with
    | .single low :: items => some { σ with mode := .range negated items low }
    | _ => none
  else none

/-- Reads a character, quoted or not. -/
def take (σ : Reading) (quoted : Bool) (c : CodePoint) : Option Reading :=
  match σ.mode with
  | .plain => σ.takePlain quoted c
  | .group => if ¬ quoted ∧ c = '?' then some { σ with mode := .groupMark } else none
  | .groupMark => if ¬ quoted ∧ c = ':' then some (between .new (σ.frame :: σ.outer)) else none
  | .set =>
    if ¬ quoted ∧ c = '^' then some { σ with mode := .members true [] }
    else σ.takeMember false [] quoted c
  | .members negated items => σ.takeMember negated items quoted c
  | .range negated items low =>
    if (quoted ∨ c ∉ setOperators) ∧ low ≤ c then
      some { σ with mode := .members negated (.range low c :: items) }
    else none

def step (σ : Reading) (c : CodePoint) : Option Reading :=
  if σ.quoting then if isAlphanum c then none else { σ with quoting := false }.take true c
  else if c = '\\' then some { σ with quoting := true }
  else σ.take false c

def run (σ : Reading) (text : Text) : Option Reading := text.foldlM step σ

/-- What has been read, if nothing is left open. -/
def result : Reading → Option Expression
  | ⟨false, .plain, f, []⟩ => some f.whole
  | _ => none

end Reading

/-- The expression that a text denotes, if it is well-formed. -/
def read (text : Text) : Option Expression :=
  ((Reading.between .new []).run text).bind Reading.result

/-! ## Facts about the reader -/

namespace Reading

@[simp] theorem run_nil (σ : Reading) : σ.run [] = some σ := rfl

theorem run_cons (σ : Reading) (c : CodePoint) (text : Text) :
    σ.run (c :: text) = (σ.step c).bind fun σ' => σ'.run text := by
  simp only [run, List.foldlM_cons]
  rfl

theorem run_append (σ : Reading) (s t : Text) :
    σ.run (s ++ t) = (σ.run s).bind fun σ' => σ'.run t := by
  simp only [run, List.foldlM_append]
  rfl

theorem run_cons_of_step {σ σ' : Reading} {c : CodePoint} (h : σ.step c = some σ')
    (text : Text) : σ.run (c :: text) = σ'.run text := by
  rw [run_cons, h, Option.bind_some]

theorem run_append_of_run {σ σ' : Reading} {s : Text} (h : σ.run s = some σ')
    (t : Text) : σ.run (s ++ t) = σ'.run t := by
  rw [run_append, h, Option.bind_some]

end Reading

end Expression

end ArchiveIndex.Glob
