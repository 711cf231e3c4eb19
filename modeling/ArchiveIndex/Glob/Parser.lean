import ArchiveIndex.Glob.Pattern
import ArchiveIndex.Text.Position

/-!
# Reading Glob Patterns

Each reader takes what is left of the pattern and returns what it read with the rest. A fault
is reported by what was left of the pattern where it lies, so the place of a fault does not
depend on what follows.

Inside a class, `!` first negates and `-` first is an ordinary character. Later a `-` makes a
range of the characters around it, unless the bracket closes right after it; it must have a
character of its own before it. The separator cannot be a member. Outside a class a backslash
takes the next character as it is. Braces do not nest; a comma or closing brace outside of
braces is an ordinary character.
-/

namespace ArchiveIndex.Glob

/-- Why a text is no pattern. -/
inductive Reason
  | noCharacterToEscape
  | missingBracket
  | emptyClass
  | separatorInClass
  | invalidRange
  | nestedGroup
  | missingBrace
deriving DecidableEq

def Reason.text : Reason → String
  | noCharacterToEscape => "No character to escape"
  | missingBracket => "Missing ']'"
  | emptyClass => "Empty character class"
  | separatorInClass => "Explicit 'name separator' in class"
  | invalidRange => "Invalid range"
  | nestedGroup => "Cannot nest groups"
  | missingBrace => "Missing '\x7d'"

/-- A fault as the reader meets it, placed by the text from there on. -/
structure Stop where
  reason : Reason
  rest : Text

/-- A fault and its place in the pattern. -/
structure Fault where
  reason : Reason
  position : Nat
deriving DecidableEq

/-! ## Classes -/

/-- Puts a member in front of those that were read. -/
def consItem (item : ClassItem) (read : Except Stop (List ClassItem × Text)) :
    Except Stop (List ClassItem × Text) :=
  read.map fun (items, rest) => (item :: items, rest)

/-- The members up to the closing bracket. `opening` is the text from the opening bracket on,
where a class without an end is reported. -/
def readItems (opening : Text) : Text → Except Stop (List ClassItem × Text)
  | [] => .error ⟨.missingBracket, opening⟩
  | c :: rest =>
    if c = ']' then .ok ([], rest)
    else if c = Path.separator then .error ⟨.separatorInClass, c :: rest⟩
    else if c = '-' then
      if rest = [] ∨ rest.head? = some (']' : CodePoint) then
        consItem (.single c) (readItems opening rest)
      else .error ⟨.invalidRange, c :: rest⟩
    else
      match rest with
      | [] => consItem (.single c) (readItems opening [])
      | [next] => consItem (.single c) (readItems opening [next])
      | dash :: high :: rest' =>
        if dash = '-' ∧ high ≠ ']' then
          if high = Path.separator then .error ⟨.separatorInClass, high :: rest'⟩
          else if high < c then .error ⟨.invalidRange, dash :: high :: rest'⟩
          else consItem (.range c high) (readItems opening rest')
        else consItem (.single c) (readItems opening (dash :: high :: rest'))

theorem length_of_consItem {item : ClassItem} {read : Except Stop (List ClassItem × Text)}
    {items : List ClassItem} {r : Text} {n : Nat} (h : consItem item read = .ok (items, r))
    (hn : ∀ {items}, read = .ok (items, r) → r.length < n) : r.length < n := by
  cases read with
  | error _ => simp [consItem, Except.map] at h
  | ok found =>
    obtain ⟨items', r'⟩ := found
    simp [consItem, Except.map] at h
    exact @hn items' (by rw [h.2])

/-- A class ends before the text does, with its closing bracket. -/
theorem length_of_readItems {opening s r : Text} {items : List ClassItem}
    (h : readItems opening s = .ok (items, r)) : r.length < s.length := by
  fun_induction readItems opening s generalizing items with
  | case1 => simp at h
  | case2 => simp_all
  | case3 => simp at h
  | case4 _ _ _ _ ih => exact Nat.lt_succ_of_lt (length_of_consItem h ih)
  | case5 => simp at h
  | case6 _ _ _ _ ih => exact Nat.lt_succ_of_lt (length_of_consItem h ih)
  | case7 _ _ _ _ _ ih => exact Nat.lt_succ_of_lt (length_of_consItem h ih)
  | case8 => simp at h
  | case9 => simp at h
  | case10 _ _ _ _ _ _ _ _ _ _ ih =>
    have := length_of_consItem h ih
    simp only [List.length_cons]
    omega
  | case11 _ _ _ _ _ _ _ _ ih => exact Nat.lt_succ_of_lt (length_of_consItem h ih)

/-- An exclamation mark, if there is one: whether the class is negated. -/
def readNegation (s : Text) : Bool × Text :=
  if s.head? = some ('!' : CodePoint) then (true, s.tail) else (false, s)

/-- A dash right at the start of the members. -/
def readLeadingDash (s : Text) : List ClassItem × Text :=
  if s.head? = some ('-' : CodePoint) then ([.single '-'], s.tail) else ([], s)

theorem length_readNegation_le (s : Text) : (readNegation s).2.length ≤ s.length := by
  unfold readNegation
  split <;> simp

theorem length_readLeadingDash_le (s : Text) : (readLeadingDash s).2.length ≤ s.length := by
  unfold readLeadingDash
  split <;> simp

/-- The class that opens with the bracket `c`. It must have a member. -/
def readClass (c : CodePoint) (rest : Text) : Except Stop (Atom × Rest (c :: rest)) :=
  let negation := readNegation rest
  let leading := readLeadingDash negation.2
  match h : readItems (c :: rest) leading.2 with
  | .error stop => .error stop
  | .ok (items, r) =>
    if leading.1 ++ items = [] then .error ⟨.emptyClass, c :: rest⟩
    else
      .ok (.oneOf negation.1 (leading.1 ++ items),
        ⟨r, by
          have h₁ := length_of_readItems h
          have h₂ := length_readLeadingDash_le negation.2
          have h₃ := length_readNegation_le rest
          exact Nat.lt_succ_of_lt (Nat.lt_of_lt_of_le h₁ (Nat.le_trans h₂ h₃))⟩)

/-! ## Atoms and groups -/

/-- The atom at the front of a text. -/
def readAtom (c : CodePoint) (rest : Text) : Except Stop (Atom × Rest (c :: rest)) :=
  if c = '\\' then
    match rest with
    | [] => .error ⟨.noCharacterToEscape, [c]⟩
    | x :: rest => .ok (.literal x, ⟨rest, Nat.lt_succ_of_lt (Nat.lt_succ_self _)⟩)
  else if c = '[' then readClass c rest
  else if c = '*' then
    if rest.head? = some ('*' : CodePoint) then .ok (.pathRun, ⟨rest.tail, by grind⟩)
    else .ok (.run, ⟨rest, by simp⟩)
  else if c = '?' then .ok (.anyChar, ⟨rest, by simp⟩)
  else .ok (.literal c, ⟨rest, by simp⟩)

/-- The alternatives of a group, up to the closing brace: the first and the others. -/
def readGroup (s : Text) : Except Stop ((List Atom × List (List Atom)) × Rest s) :=
  match s with
  | [] => .error ⟨.missingBrace, []⟩
  | c :: rest =>
    if c = '\x7d' then .ok (([], []), ⟨rest, by simp⟩)
    else if c = '\x7b' then .error ⟨.nestedGroup, c :: rest⟩
    else if c = ',' then do
      let ((first, others), r) ← readGroup rest
      return (([], first :: others), ⟨r.1, by grind⟩)
    else do
      let (a, r) ← readAtom c rest
      let ((first, others), r) ← readGroup r.1
      return ((a :: first, others), ⟨r.1, by grind⟩)
termination_by s.length
decreasing_by all_goals grind

/-- The parts of a pattern up to its end. -/
def readPieces (s : Text) : Except Stop Pattern :=
  match s with
  | [] => .ok []
  | c :: rest =>
    if c = '\x7b' then do
      let ((first, others), r) ← readGroup rest
      return .group first others :: (← readPieces r.1)
    else do
      let (a, r) ← readAtom c rest
      return .atom a :: (← readPieces r.1)
termination_by s.length
decreasing_by all_goals grind

/-- Reads a pattern. -/
def Pattern.parse (text : Text) : Except Fault Pattern :=
  (readPieces text).mapError fun stop => ⟨stop.reason, text.length - stop.rest.length⟩

end ArchiveIndex.Glob
