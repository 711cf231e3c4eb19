import ArchiveIndex.Path

/-!
# Glob Patterns

A pattern describes names the way a shell does. Its atoms are single characters, `?` for any
character but the separator, `*` for a run of such characters, `**` for a run of any characters,
and classes in brackets. Braces around alternatives form a group; groups hold atoms only, as
they do not nest.

**What a pattern means** is said here on its parts, as the set of texts each of them matches;
nothing of it mentions regular expressions. A sequence matches the texts that are cut into one
piece for each member, and a group what one of its alternatives matches.
-/

namespace ArchiveIndex.Glob

/-! ## Sequences of pieces -/

/-- A part of a sequence: an atom, or a group of alternatives, at least one. -/
inductive Piece (α : Type)
  | atom (a : α)
  | group (first : List α) (others : List (List α))
deriving DecidableEq

/-- The texts that a sequence matches, if `M` says it of its members. -/
def SequenceMatches {α : Type} (M : α → Text → Prop) : List α → Text → Prop
  | [], w => w = []
  | a :: rest, w => ∃ u v, w = u ++ v ∧ M a u ∧ SequenceMatches M rest v

/-- The texts that a part of a sequence matches. -/
def Piece.Matches {α : Type} (M : α → Text → Prop) : Piece α → Text → Prop
  | atom a, w => M a w
  | group first others, w => ∃ alternative ∈ first :: others, SequenceMatches M alternative w

@[simp] theorem sequenceMatches_nil {α : Type} (M : α → Text → Prop) (w : Text) :
    SequenceMatches M [] w ↔ w = [] := Iff.rfl

@[simp] theorem sequenceMatches_cons {α : Type} (M : α → Text → Prop) (a : α) (rest : List α)
    (w : Text) :
    SequenceMatches M (a :: rest) w ↔
      ∃ u v, w = u ++ v ∧ M a u ∧ SequenceMatches M rest v := Iff.rfl

/-! ## Atoms -/

/-- A member of a class: a character, or all characters from one to another. -/
inductive ClassItem
  | single (c : CodePoint)
  | range (low high : CodePoint)
deriving DecidableEq

/-- Whether a character belongs to a member of a class. -/
def ClassItem.contains (x : CodePoint) : ClassItem → Bool
  | single c => x = c
  | range low high => low ≤ x && x ≤ high

/-- The smallest parts of a pattern. -/
inductive Atom
  | literal (c : CodePoint)
  | anyChar
  | run
  | pathRun
  | oneOf (negated : Bool) (items : List ClassItem)
deriving DecidableEq

/-- The texts that an atom matches. A class that is negated never matches the separator. -/
def Atom.Matches : Atom → Text → Prop
  | literal c, w => w = [c]
  | anyChar, w => ∃ x, w = [x] ∧ x ≠ Path.separator
  | run, w => Path.separator ∉ w
  | pathRun, _ => True
  | oneOf false items, w => ∃ x, w = [x] ∧ ∃ item ∈ items, item.contains x = true
  | oneOf true items, w =>
    ∃ x, w = [x] ∧ x ≠ Path.separator ∧ ∀ item ∈ items, item.contains x = false

/-- A whole pattern. -/
abbrev Pattern := List (Piece Atom)

/-- The texts that a pattern matches. -/
def Pattern.Matches (p : Pattern) (w : Text) : Prop :=
  SequenceMatches (Piece.Matches Atom.Matches) p w

end ArchiveIndex.Glob
