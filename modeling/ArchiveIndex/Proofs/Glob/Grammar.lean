import ArchiveIndex.Glob.Parser
import ArchiveIndex.Proofs.Fallible
import Mathlib.Tactic.SplitIfs

/-!
# The grammar of glob patterns

The grammar says which texts spell which patterns, one rule for each thing that may stand next
in a text, from left to right. Each relation has the text that a spelling starts at and the text
that is left after it. The only rule that looks further is the one for `*`, which is not
followed by another.

**Theorem (`parse_eq_ok_iff`).** The reader returns a pattern exactly if the text spells it. So
a text spells one pattern at most, and the reader accepts just the texts that spell one.

From left to right the reader and the grammar decide alike, except inside a class: the reader
looks one character ahead for a dash, while the grammar offers a character on its own as well
as a range. Then the members after a character on its own settle it: they begin with a dash
only if that dash is the last member (`eq_bracket_of_dash`).
-/

namespace ArchiveIndex.Glob

/-! ## Spellings -/

/-- The members of a class after the leading dash, with the closing bracket: characters and
ranges, and perhaps a dash at the end. -/
inductive SpellsItems : List ClassItem → Text → Text → Prop
  | close {rest : Text} : SpellsItems [] (']' :: rest) rest
  | dash {rest : Text} : SpellsItems [.single '-'] ('-' :: ']' :: rest) rest
  | single {c : CodePoint} {items : List ClassItem} {text rest : Text} :
      c ∉ ([']', Path.separator, '-'] : Text) → SpellsItems items text rest →
      SpellsItems (.single c :: items) (c :: text) rest
  | range {low high : CodePoint} {items : List ClassItem} {text rest : Text} :
      low ∉ ([']', Path.separator, '-'] : Text) → high ∉ ([']', Path.separator] : Text) →
      low ≤ high → SpellsItems items text rest →
      SpellsItems (.range low high :: items) (low :: '-' :: high :: text) rest

/-- All members of a class, with a dash at the start or without. -/
inductive SpellsMembers : List ClassItem → Text → Text → Prop
  | items {items : List ClassItem} {text rest : Text} :
      SpellsItems items text rest → SpellsMembers items text rest
  | dash {items : List ClassItem} {text rest : Text} :
      SpellsItems items text rest → SpellsMembers (.single '-' :: items) ('-' :: text) rest

/-- A class after its opening bracket: negated by a mark, or without a mark. -/
inductive SpellsClass : Bool → List ClassItem → Text → Text → Prop
  | listed {members : List ClassItem} {text rest : Text} :
      text.head? ≠ some ('!' : CodePoint) → members ≠ [] → SpellsMembers members text rest →
      SpellsClass false members text rest
  | negated {members : List ClassItem} {text rest : Text} :
      members ≠ [] → SpellsMembers members text rest →
      SpellsClass true members ('!' :: text) rest

/-- An atom. -/
inductive SpellsAtom : Atom → Text → Text → Prop
  | escaped {c : CodePoint} {rest : Text} : SpellsAtom (.literal c) ('\\' :: c :: rest) rest
  | oneOf {negated : Bool} {members : List ClassItem} {text rest : Text} :
      SpellsClass negated members text rest →
      SpellsAtom (.oneOf negated members) ('[' :: text) rest
  | pathRun {rest : Text} : SpellsAtom .pathRun ('*' :: '*' :: rest) rest
  | run {rest : Text} : rest.head? ≠ some ('*' : CodePoint) → SpellsAtom .run ('*' :: rest) rest
  | anyChar {rest : Text} : SpellsAtom .anyChar ('?' :: rest) rest
  | plain {c : CodePoint} {rest : Text} :
      c ∉ (['\\', '[', '*', '?'] : Text) → SpellsAtom (.literal c) (c :: rest) rest

/-- The alternatives of a group after its opening brace, with the closing one. -/
inductive SpellsGroup : List Atom → List (List Atom) → Text → Text → Prop
  | close {rest : Text} : SpellsGroup [] [] ('\x7d' :: rest) rest
  | comma {first : List Atom} {others : List (List Atom)} {text rest : Text} :
      SpellsGroup first others text rest → SpellsGroup [] (first :: others) (',' :: text) rest
  | atom {a : Atom} {first : List Atom} {others : List (List Atom)} {c : CodePoint}
      {text left rest : Text} :
      c ∉ (['\x7b', '\x7d', ','] : Text) → SpellsAtom a (c :: text) left →
      SpellsGroup first others left rest → SpellsGroup (a :: first) others (c :: text) rest

/-- A whole pattern. -/
inductive Spells : Pattern → Text → Prop
  | nil : Spells [] []
  | atom {a : Atom} {p : Pattern} {c : CodePoint} {text left : Text} :
      c ≠ '\x7b' → SpellsAtom a (c :: text) left → Spells p left →
      Spells (.atom a :: p) (c :: text)
  | group {first : List Atom} {others : List (List Atom)} {p : Pattern}
      {text left : Text} :
      SpellsGroup first others text left → Spells p left →
      Spells (.group first others :: p) ('\x7b' :: text)

/-! ## Classes -/

theorem consItem_eq_ok_iff {item : ClassItem} {read : Except Stop (List ClassItem × Text)}
    {members : List ClassItem} {rest : Text} :
    consItem item read = .ok (members, rest) ↔
      ∃ items, read = .ok (items, rest) ∧ members = item :: items := by
  cases read with
  | error stop => simp [consItem, Except.map]
  | ok found =>
    obtain ⟨items, left⟩ := found
    simp only [consItem, Except.map, Except.ok.injEq, Prod.mk.injEq]
    constructor
    · rintro ⟨rfl, rfl⟩
      exact ⟨items, ⟨rfl, rfl⟩, rfl⟩
    · rintro ⟨-, ⟨rfl, rfl⟩, rfl⟩
      exact ⟨rfl, rfl⟩

theorem readItems_bracket (opening rest : Text) :
    readItems opening (']' :: rest) = .ok ([], rest) := by
  rw [readItems.eq_def]
  simp

theorem spellsItems_of_readItems {opening text rest : Text} {items : List ClassItem}
    (h : readItems opening text = .ok (items, rest)) : SpellsItems items text rest := by
  fun_induction readItems opening text generalizing items with
  | case1 | case3 | case5 | case8 | case9 => simp at h
  | case2 =>
    obtain ⟨rfl, rfl⟩ : [] = items ∧ _ = rest := by simpa using h
    exact .close
  | case4 left hleft _ _ ih =>
    obtain ⟨later, hlater, rfl⟩ := consItem_eq_ok_iff.1 h
    -- nothing but the closing bracket may follow this dash
    rcases hleft with rfl | hleft
    · simp [readItems] at hlater
    · obtain ⟨left, rfl⟩ := List.head?_eq_some_iff.1 hleft
      obtain ⟨rfl, rfl⟩ : [] = later ∧ left = rest := by simpa [readItems_bracket] using hlater
      exact .dash
  | case6 c h₁ h₂ h₃ ih | case7 c h₁ h₂ h₃ _ ih | case11 c h₁ h₂ h₃ _ _ _ _ ih =>
    obtain ⟨later, hlater, rfl⟩ := consItem_eq_ok_iff.1 h
    exact .single (by simp [h₁, h₂, h₃]) (ih hlater)
  | case10 low h₁ h₂ h₃ _ high _ hdash h₄ h₅ ih =>
    obtain ⟨later, hlater, rfl⟩ := consItem_eq_ok_iff.1 h
    obtain ⟨rfl, hhigh⟩ := hdash
    exact .range (by simp [h₁, h₂, h₃]) (by simp [hhigh, h₄]) (Fin.not_lt.1 h₅) (ih hlater)

/-- After a character on its own a dash can only be the last member. -/
theorem eq_bracket_of_dash {items : List ClassItem} {high : CodePoint} {text rest : Text}
    (h : SpellsItems items ('-' :: high :: text) rest) : high = ']' := by
  cases h with
  | dash => rfl
  | single hc _ => simp at hc
  | range hlow _ _ _ => simp at hlow

/-- The reader takes a character on its own unless a dash and an end of a range follow. -/
theorem readItems_cons {c : CodePoint} {text : Text} (opening : Text)
    (hc : c ∉ ([']', Path.separator, '-'] : Text))
    (hdash : ∀ (high : CodePoint) (left : Text),
      text = ('-' : CodePoint) :: high :: left → high = ']') :
    readItems opening (c :: text) = consItem (.single c) (readItems opening text) := by
  obtain ⟨h₁, h₂, h₃⟩ : c ≠ ']' ∧ c ≠ Path.separator ∧ c ≠ '-' := by simpa using hc
  rw [readItems.eq_def]
  simp only [if_neg h₁, if_neg h₂, if_neg h₃]
  rcases text with _ | ⟨dash, _ | ⟨high, left⟩⟩
  · rfl
  · rfl
  · have hplain : ¬ (dash = '-' ∧ high ≠ ']') := by
      rintro ⟨rfl, hhigh⟩
      exact hhigh (hdash high left rfl)
    simp only [if_neg hplain]

theorem readItems_range {low high : CodePoint} (opening left : Text)
    (hlow : low ∉ ([']', Path.separator, '-'] : Text))
    (hhigh : high ∉ ([']', Path.separator] : Text)) (hle : low ≤ high) :
    readItems opening (low :: '-' :: high :: left) =
      consItem (.range low high) (readItems opening left) := by
  obtain ⟨h₁, h₂, h₃⟩ : low ≠ ']' ∧ low ≠ Path.separator ∧ low ≠ '-' := by simpa using hlow
  obtain ⟨h₄, h₅⟩ : high ≠ ']' ∧ high ≠ Path.separator := by simpa using hhigh
  rw [readItems.eq_def]
  simp only [if_neg h₁, if_neg h₂, if_neg h₃, if_neg h₅, if_neg (Fin.not_lt.2 hle)]
  rw [if_pos ⟨trivial, h₄⟩]

theorem readItems_of_spellsItems (opening : Text) {text rest : Text}
    {items : List ClassItem} (h : SpellsItems items text rest) :
    readItems opening text = .ok (items, rest) := by
  induction h with
  | close => exact readItems_bracket opening _
  | dash =>
    rw [readItems.eq_def]
    simp [readItems_bracket, consItem, Except.map, Path.separator]
  | single hc h ih =>
    rw [readItems_cons opening hc, ih]
    · rfl
    · rintro high left rfl
      exact eq_bracket_of_dash h
  | range hlow hhigh hle h ih =>
    rw [readItems_range opening _ hlow hhigh hle, ih]
    rfl

theorem readItems_eq_ok_iff (opening : Text) {text rest : Text}
    {items : List ClassItem} :
    readItems opening text = .ok (items, rest) ↔ SpellsItems items text rest :=
  ⟨spellsItems_of_readItems, readItems_of_spellsItems opening⟩

theorem spellsMembers_iff {members : List ClassItem} {text rest : Text} :
    SpellsMembers members text rest ↔
      ∃ items, SpellsItems items (readLeadingDash text).2 rest ∧
        members = (readLeadingDash text).1 ++ items := by
  constructor
  · intro h
    cases h with
    | items h =>
      by_cases hdash : text.head? = some ('-' : CodePoint)
      · -- a dash that is the only member counts as the first and as the last
        obtain ⟨later, rfl⟩ := List.head?_eq_some_iff.1 hdash
        cases h with
        | dash => exact ⟨[], .close, rfl⟩
        | single hc _ => simp at hc
        | range hlow _ _ _ => simp at hlow
      · have hplain : readLeadingDash text = ([], text) := if_neg hdash
        exact ⟨members, by rwa [hplain], by rw [hplain, List.nil_append]⟩
    | dash h => exact ⟨_, h, rfl⟩
  · rintro ⟨items, h, rfl⟩
    unfold readLeadingDash at h ⊢
    split at h
    · next hdash =>
      obtain ⟨later, rfl⟩ := List.head?_eq_some_iff.1 hdash
      rw [if_pos hdash]
      exact .dash h
    · next hdash =>
      rw [if_neg hdash]
      exact .items h

theorem spellsClass_iff {negated : Bool} {members : List ClassItem} {text rest : Text} :
    SpellsClass negated members text rest ↔
      SpellsMembers members (readNegation text).2 rest ∧ members ≠ [] ∧
        negated = (readNegation text).1 := by
  constructor
  · intro h
    cases h with
    | listed hmark hne h =>
      have hplain : readNegation text = (false, text) := if_neg hmark
      rw [hplain]
      exact ⟨h, hne, rfl⟩
    | negated hne h => exact ⟨h, hne, rfl⟩
  · rintro ⟨h, hne, rfl⟩
    unfold readNegation at h ⊢
    split at h
    · next hmark =>
      obtain ⟨later, rfl⟩ := List.head?_eq_some_iff.1 hmark
      rw [if_pos hmark]
      exact .negated hne h
    · next hmark =>
      rw [if_neg hmark]
      exact .listed hmark hne h

theorem readClass_eq_ok_iff {c : CodePoint} {text : Text} {a : Atom} {left : Rest (c :: text)} :
    readClass c text = .ok (a, left) ↔
      ∃ negated members, a = .oneOf negated members ∧
        SpellsClass negated members text left.1 := by
  simp only [spellsClass_iff, spellsMembers_iff, ← readItems_eq_ok_iff (c :: text), readClass]
  split
  · next hread => simp [hread]
  · next items rest hread =>
    simp only [hread, Except.ok.injEq, Prod.mk.injEq]
    split_ifs with hempty
    · simp only [false_iff]
      rintro ⟨negated, members, -, ⟨_, ⟨rfl, -⟩, rfl⟩, hne, -⟩
      exact hne hempty
    · constructor
      · intro h
        obtain ⟨rfl, rfl⟩ : _ = a ∧ _ = left := by simpa using h
        exact ⟨_, _, rfl, ⟨items, ⟨rfl, rfl⟩, rfl⟩, hempty, rfl⟩
      · rintro ⟨negated, members, rfl, ⟨_, ⟨rfl, hrest⟩, rfl⟩, -, rfl⟩
        exact congrArg Except.ok (Prod.ext rfl (Subtype.ext hrest))

theorem spellsAtom_of_readAtom {c : CodePoint} {text : Text} {a : Atom} {left : Rest (c :: text)}
    (h : readAtom c text = .ok (a, left)) : SpellsAtom a (c :: text) left.1 := by
  unfold readAtom at h
  split_ifs at h with h₁ h₂ h₃ h₄ h₅
  · subst h₁
    rcases text with _ | ⟨x, text⟩
    · simp at h
    · obtain ⟨rfl, rfl⟩ : Atom.literal x = a ∧ _ = left := by simpa using h
      exact .escaped
  · subst h₂
    obtain ⟨negated, members, rfl, hclass⟩ := readClass_eq_ok_iff.1 h
    exact .oneOf hclass
  · subst h₃
    obtain ⟨later, rfl⟩ := List.head?_eq_some_iff.1 h₄
    obtain ⟨rfl, rfl⟩ : Atom.pathRun = a ∧ _ = left := by simpa using h
    exact .pathRun
  · subst h₃
    obtain ⟨rfl, rfl⟩ : Atom.run = a ∧ _ = left := by simpa using h
    exact .run h₄
  · subst h₅
    obtain ⟨rfl, rfl⟩ : Atom.anyChar = a ∧ _ = left := by simpa using h
    exact .anyChar
  · obtain ⟨rfl, rfl⟩ : Atom.literal c = a ∧ _ = left := by simpa using h
    exact .plain (by simp [h₁, h₂, h₃, h₅])

/-- An atom takes a character at least, so a reader of atoms comes to an end. -/
theorem length_of_spellsAtom {a : Atom} {text left : Text} (h : SpellsAtom a text left) :
    left.length < text.length := by
  cases h with
  | escaped | pathRun => simp only [List.length_cons]; omega
  | run | anyChar | plain => simp
  | @oneOf _ _ text _ hclass =>
    obtain ⟨hmembers, -, -⟩ := spellsClass_iff.1 hclass
    obtain ⟨items, hitems, -⟩ := spellsMembers_iff.1 hmembers
    have h₁ := length_of_readItems (readItems_of_spellsItems [] hitems)
    have h₂ := length_readLeadingDash_le (readNegation text).2
    have h₃ := length_readNegation_le text
    exact Nat.lt_succ_of_lt (Nat.lt_of_lt_of_le h₁ (Nat.le_trans h₂ h₃))

theorem readAtom_of_spellsAtom {c : CodePoint} {text left : Text} {a : Atom}
    (h : SpellsAtom a (c :: text) left) :
    readAtom c text = .ok (a, ⟨left, length_of_spellsAtom h⟩) := by
  cases h with
  | escaped => rfl
  | oneOf hclass => exact readClass_eq_ok_iff.2 ⟨_, _, rfl, hclass⟩
  | pathRun => rfl
  | run hnext => simp [readAtom, hnext]
  | anyChar => rfl
  | plain hc =>
    obtain ⟨h₁, h₂, h₃, h₄⟩ : c ≠ '\\' ∧ c ≠ '[' ∧ c ≠ '*' ∧ c ≠ '?' := by simpa using hc
    simp [readAtom, h₁, h₂, h₃, h₄]

/-! ## Groups and patterns -/

theorem spellsGroup_of_readGroup {text : Text} {first : List Atom}
    {others : List (List Atom)} {left : Rest text}
    (h : readGroup text = .ok ((first, others), left)) : SpellsGroup first others text left.1 := by
  fun_induction readGroup text generalizing first others with
  | case1 | case3 => simp at h
  | case2 =>
    obtain ⟨⟨rfl, rfl⟩, rfl⟩ : ([] = first ∧ [] = others) ∧ _ = left := by simpa using h
    exact .close
  | case4 text _ _ ih =>
    obtain ⟨⟨⟨first', others'⟩, left'⟩, hread, h⟩ := bind_eq_ok_iff.1 h
    obtain ⟨⟨rfl, rfl⟩, rfl⟩ : ([] = first ∧ first' :: others' = others) ∧ _ = left := by
      simpa [pure, Except.pure] using h
    exact .comma (ih hread)
  | case5 c text h₁ h₂ h₃ ih =>
    obtain ⟨⟨a, middle⟩, hatom, h⟩ := bind_eq_ok_iff.1 h
    obtain ⟨⟨⟨first', others'⟩, left'⟩, hread, h⟩ := bind_eq_ok_iff.1 h
    obtain ⟨⟨rfl, rfl⟩, rfl⟩ : (a :: first' = first ∧ others' = others) ∧ _ = left := by
      simpa [pure, Except.pure] using h
    exact .atom (by simp [h₁, h₂, h₃]) (spellsAtom_of_readAtom hatom) (ih middle hread)

theorem readGroup_of_spellsGroup {text left : Text} {first : List Atom}
    {others : List (List Atom)} (h : SpellsGroup first others text left) :
    ∃ hleft, readGroup text = .ok ((first, others), ⟨left, hleft⟩) := by
  induction h with
  | close =>
    rw [readGroup]
    exact ⟨by simp, rfl⟩
  | comma h ih =>
    obtain ⟨hleft, hread⟩ := ih
    rw [readGroup]
    refine ⟨Nat.lt_succ_of_lt hleft, ?_⟩
    simp [hread, bind, Except.bind, pure, Except.pure]
  | @atom _ _ _ c _ _ _ hc hatom h ih =>
    obtain ⟨h₁, h₂, h₃⟩ : c ≠ '\x7b' ∧ c ≠ '\x7d' ∧ c ≠ ',' := by simpa using hc
    obtain ⟨hleft, hread⟩ := ih
    rw [readGroup]
    refine ⟨Nat.lt_trans hleft (length_of_spellsAtom hatom), ?_⟩
    simp only [if_neg h₁, if_neg h₂, if_neg h₃]
    rw [readAtom_of_spellsAtom hatom]
    simp [hread, bind, Except.bind, pure, Except.pure]

theorem spells_of_readPieces {text : Text} {p : Pattern} (h : readPieces text = .ok p) :
    Spells p text := by
  fun_induction readPieces text generalizing p with
  | case1 =>
    obtain rfl : [] = p := by simpa using h
    exact .nil
  | case2 text ihgroup =>
    obtain ⟨⟨⟨first, others⟩, middle⟩, hgroup, h⟩ := bind_eq_ok_iff.1 h
    obtain ⟨q, hread, h⟩ := bind_eq_ok_iff.1 h
    obtain rfl : .group first others :: q = p := by simpa [pure, Except.pure] using h
    exact .group (spellsGroup_of_readGroup hgroup) (ihgroup middle hread)
  | case3 c text hc ih =>
    obtain ⟨⟨a, middle⟩, hatom, h⟩ := bind_eq_ok_iff.1 h
    obtain ⟨q, hread, h⟩ := bind_eq_ok_iff.1 h
    obtain rfl : .atom a :: q = p := by simpa [pure, Except.pure] using h
    exact .atom hc (spellsAtom_of_readAtom hatom) (ih middle hread)

theorem readPieces_of_spells {text : Text} {p : Pattern} (h : Spells p text) :
    readPieces text = .ok p := by
  induction h with
  | nil => rw [readPieces]
  | atom hc hatom h ih =>
    rw [readPieces, if_neg hc, readAtom_of_spellsAtom hatom]
    simp [ih, bind, Except.bind, pure, Except.pure]
  | group hgroup h ih =>
    obtain ⟨hleft, hread⟩ := readGroup_of_spellsGroup hgroup
    rw [readPieces, if_pos rfl, hread]
    simp [ih, bind, Except.bind, pure, Except.pure]

/-- **The reader reads what the grammar spells.** -/
theorem parse_eq_ok_iff {text : Text} {p : Pattern} :
    Pattern.parse text = .ok p ↔ Spells p text := by
  have hpieces : Pattern.parse text = .ok p ↔ readPieces text = .ok p := by
    unfold Pattern.parse
    cases readPieces text with
    | error stop => simp [Except.mapError]
    | ok q => simp [Except.mapError]
  rw [hpieces]
  exact ⟨spells_of_readPieces, readPieces_of_spells⟩

/-! ## Well-formed classes -/

/-- From a character to one that does not come before it. -/
def ClassItem.Ascending : ClassItem → Prop
  | single _ => True
  | range low high => low ≤ high

/-- Classes have a member, and their ranges ascend. -/
def Atom.WellFormed : Atom → Prop
  | oneOf _ members => members ≠ [] ∧ ∀ item ∈ members, item.Ascending
  | _ => True

/-- All members of a part have a property. -/
def Piece.Forall {α : Type} (P : α → Prop) : Piece α → Prop
  | atom a => P a
  | group first others => ∀ alternative ∈ first :: others, ∀ a ∈ alternative, P a

/-- What a class may list apart from a dash at its start or its end. -/
def ClassItem.Allowed : ClassItem → Prop
  | single c => c ∉ ([']', Path.separator, '-'] : Text)
  | range low high =>
    low ∉ ([']', Path.separator, '-'] : Text) ∧ high ∉ ([']', Path.separator] : Text) ∧ low ≤ high

theorem allowed_of_spellsItems {items : List ClassItem} {text rest : Text}
    (h : SpellsItems items text rest) : ∀ item ∈ items, item = .single '-' ∨ item.Allowed := by
  induction h with
  | close => simp
  | dash => simp
  | single hc _ ih => exact List.forall_mem_cons.2 ⟨.inr hc, ih⟩
  | range hlow hhigh hle _ ih => exact List.forall_mem_cons.2 ⟨.inr ⟨hlow, hhigh, hle⟩, ih⟩

theorem allowed_of_spellsMembers {members : List ClassItem} {text rest : Text}
    (h : SpellsMembers members text rest) :
    ∀ item ∈ members, item = .single '-' ∨ item.Allowed := by
  cases h with
  | items h => exact allowed_of_spellsItems h
  | dash h => exact List.forall_mem_cons.2 ⟨.inl rfl, allowed_of_spellsItems h⟩

theorem members_of_spellsAtom {negated : Bool} {members : List ClassItem} {text rest : Text}
    (h : SpellsAtom (.oneOf negated members) text rest) :
    members ≠ [] ∧ ∀ item ∈ members, item = .single '-' ∨ item.Allowed := by
  cases h with
  | oneOf hclass =>
    obtain ⟨hmembers, hne, -⟩ := spellsClass_iff.1 hclass
    exact ⟨hne, allowed_of_spellsMembers hmembers⟩

theorem ascending_of_allowed {item : ClassItem} (h : item = .single '-' ∨ item.Allowed) :
    item.Ascending := by
  rcases h with rfl | h
  · trivial
  · cases item with
    | single c => trivial
    | range low high => exact h.2.2

theorem wellFormed_of_spellsAtom {a : Atom} {text rest : Text}
    (h : SpellsAtom a text rest) : a.WellFormed := by
  cases a with
  | oneOf negated members =>
    obtain ⟨hne, hmembers⟩ := members_of_spellsAtom h
    exact ⟨hne, fun item hitem => ascending_of_allowed (hmembers item hitem)⟩
  | literal | anyChar | run | pathRun => trivial

/-- What holds of every atom that a text spells holds of the atoms of a group. -/
theorem forall_of_spellsGroup {P : Atom → Prop}
    (hP : ∀ {a : Atom} {text rest : Text}, SpellsAtom a text rest → P a)
    {first : List Atom} {others : List (List Atom)} {text rest : Text}
    (h : SpellsGroup first others text rest) :
    ∀ alternative ∈ first :: others, ∀ a ∈ alternative, P a := by
  induction h with
  | close => simp
  | comma _ ih => exact List.forall_mem_cons.2 ⟨by simp, ih⟩
  | atom _ hatom _ ih =>
    obtain ⟨hfirst, hothers⟩ := List.forall_mem_cons.1 ih
    refine List.forall_mem_cons.2 ⟨?_, hothers⟩
    exact List.forall_mem_cons.2 ⟨hP hatom, hfirst⟩

theorem forall_of_spells {P : Atom → Prop}
    (hP : ∀ {a : Atom} {text rest : Text}, SpellsAtom a text rest → P a)
    {p : Pattern} {text : Text} (h : Spells p text) : ∀ piece ∈ p, piece.Forall P := by
  induction h with
  | nil => simp
  | atom _ hatom _ ih => exact List.forall_mem_cons.2 ⟨hP hatom, ih⟩
  | group hgroup _ ih => exact List.forall_mem_cons.2 ⟨forall_of_spellsGroup hP hgroup, ih⟩

theorem wellFormed_of_spells {p : Pattern} {text : Text} (h : Spells p text) :
    ∀ piece ∈ p, piece.Forall Atom.WellFormed :=
  forall_of_spells wellFormed_of_spellsAtom h

end ArchiveIndex.Glob
