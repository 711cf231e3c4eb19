import ArchiveIndex.Glob.Pattern

/-!
# Regular Expressions of Patterns

A pattern is run as a regular expression. The expressions that patterns need are small: what is
repeated is always one set of characters, and alternatives do not nest, so an expression has the
shape of the pattern it comes from. `Regex.ofPattern` makes it, `Regex.text` writes the
expression out in the usual notation, and `Regex.fullMatch` decides whether it matches a text.

**How matching works.** Going through the expression from its end to its start, it is noted for
every tail of the text whether the rest of the expression matches that tail. One pass over the
text updates the notes for one term, so the time is the product of the two lengths, however many
stars there are.
-/

namespace ArchiveIndex.Glob

/-! ## Expressions -/

/-- A set of characters, as an expression writes it. -/
inductive CharSet
  | literal (c : CodePoint)
  | any
  | bracket (negated : Bool) (items : List ClassItem)
deriving DecidableEq

/-- One character of a set, or any number of them. -/
inductive Term
  | one (set : CharSet)
  | many (set : CharSet)
deriving DecidableEq

/-- A regular expression. -/
abbrev Regex := List (Piece Term)

/-- Whether a character is in a set. -/
def CharSet.contains (x : CodePoint) : CharSet → Bool
  | literal c => x = c
  | any => true
  | bracket negated items => (items.any fun item => item.contains x) != negated

/-- The texts that a term matches. -/
def Term.Matches : Term → Text → Prop
  | one set, w => ∃ x, w = [x] ∧ set.contains x = true
  | many set, w => ∀ x ∈ w, set.contains x = true

/-- The texts that an expression matches. -/
def Regex.Matches (r : Regex) (w : Text) : Prop :=
  SequenceMatches (Piece.Matches Term.Matches) r w

/-! ## From patterns to expressions -/

/-- Replaces every atom of a part. -/
def Piece.map {α β : Type} (f : α → β) : Piece α → Piece β
  | atom a => atom (f a)
  | group first others => group (first.map f) (others.map (List.map f))

/-- All characters but the separator. -/
def CharSet.inSegment : CharSet := bracket true [.single Path.separator]

/-- The term that matches what an atom matches. A negated class takes in the separator, so as
not to match it. -/
def Term.ofAtom : Atom → Term
  | .literal c => one (.literal c)
  | .anyChar => one .inSegment
  | .run => many .inSegment
  | .pathRun => many .any
  | .oneOf false items => one (.bracket false items)
  | .oneOf true items => one (.bracket true (.single Path.separator :: items))

/-- The expression that matches what a pattern matches. -/
def Regex.ofPattern (p : Pattern) : Regex := p.map (Piece.map Term.ofAtom)

/-! ## Written form -/

/-- The characters that have a meaning in an expression, or might be given one. -/
def specialChars : Text := .ofString "()[]\x7b\x7d?*+-|^$\\.&~# \t\n\r\x0b\x0c"

/-- A character that stands for itself. -/
def escape (c : CodePoint) : Text := if c ∈ specialChars then ['\\', c] else [c]

def ClassItem.text : ClassItem → Text
  | single c => escape c
  | range low high => escape low ++ ('-' : CodePoint) :: escape high

def CharSet.text : CharSet → Text
  | literal c => escape c
  | any => ['.']
  | bracket negated items =>
    ('[' : CodePoint) :: (if negated then ['^'] else [] : Text) ++ items.flatMap ClassItem.text ++
      ([']'] : Text)

def Term.text : Term → Text
  | one set => set.text
  | many set => set.text ++ (['*'] : Text)

def Piece.text {α : Type} (f : α → Text) : Piece α → Text
  | atom a => f a
  | group first others =>
    (['(', '?', ':'] : Text) ++ first.flatMap f ++
      others.flatMap (fun branch => ('|' : CodePoint) :: branch.flatMap f) ++ ([')'] : Text)

/-- The expression in the usual notation. -/
def Regex.text (r : Regex) : Text := r.flatMap (Piece.text Term.text)

/-! ## Matching -/

/-- For every tail of a text, the whole text first and the empty tail last, whether it has some
property. -/
abbrev Marks := List Bool

/-- The marks of a property. -/
def Marks.of (holds : Text → Bool) : Text → Marks
  | [] => [holds []]
  | c :: rest => holds (c :: rest) :: of holds rest

/-- Marks the tails that have a character of the set before a marked tail. -/
def CharSet.markOne (set : CharSet) : Text → Marks → Marks
  | [], _ => [false]
  | c :: rest, marks =>
    (set.contains c && marks.tail.headD false) :: set.markOne rest marks.tail

/-- Marks the tails that have any number of characters of the set before a marked tail. -/
def CharSet.markMany (set : CharSet) : Text → Marks → Marks
  | [], marks => [marks.headD false]
  | c :: rest, marks =>
    let later := set.markMany rest marks.tail
    (marks.headD false || (set.contains c && later.headD false)) :: later

/-- Marks the tails that start with a match of the term before a marked tail. -/
def Term.mark (text : Text) : Term → Marks → Marks
  | one set, marks => set.markOne text marks
  | many set, marks => set.markMany text marks

/-- Marks the tails that start with a match of the terms in turn before a marked tail. -/
def markSequence {α : Type} (mark : α → Marks → Marks) (terms : List α) (marks : Marks) : Marks :=
  terms.foldr mark marks

/-- Marks the tails that start with a match of the part before a marked tail. -/
def Piece.mark (text : Text) : Piece Term → Marks → Marks
  | atom term, marks => term.mark text marks
  | group first others, marks =>
    (others.map fun branch => markSequence (Term.mark text) branch marks).foldl
      (List.zipWith or) (markSequence (Term.mark text) first marks)

/-- Whether the expression matches the whole text. -/
def Regex.fullMatch (r : Regex) (text : Text) : Bool :=
  (markSequence (Piece.mark text) r (Marks.of List.isEmpty text)).headD false

end ArchiveIndex.Glob
