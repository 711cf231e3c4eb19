import ArchiveIndex.Proofs.Glob.Compilation

/-!
# Which texts are patterns

A text is a pattern if it can be cut into tokens: an escaped character, `**`, `*`, `?`, a class,
a brace, a comma, or any other character. Every token may stand anywhere, with two exceptions.
A lone star is not followed by another, since the two would be `**`. And an opening brace needs a
closing one after it before the next opening one, so that a group ends and holds no other.

**Theorem (`compile_ok_iff_splits`).** A pattern compiles exactly if its text can be cut so.

Here a class is described by its text from bracket to bracket, and a group only by its braces;
the grammar that the reader follows (`Spells`) says instead what is left of the text after each
part. The two are matched from the last token to the first. The tokens after an opening brace
have to be read both ways, as the rest of a group and as what follows without one, so the
induction carries both readings (`spells_of_splits`).
-/

namespace ArchiveIndex.Glob

/-! ## Classes as written -/

/-- A member of a class as it is written. -/
def ClassItem.spelling : ClassItem → Text
  | single c => [c]
  | range low high => [low, '-', high]

/-- A class as it is written: perhaps negated, and perhaps with a dash before or after the other
members. -/
structure ClassText where
  negated : Bool
  leadingDash : Bool
  items : List ClassItem
  trailingDash : Bool

namespace ClassText

/-- A dash, if there is one. -/
def dash (present : Bool) : List ClassItem := if present then [.single '-'] else []

/-- All members in their order. -/
def members (k : ClassText) : List ClassItem := dash k.leadingDash ++ k.items ++ dash k.trailingDash

/-- What stands after the mark of negation, up to the closing bracket. -/
def inside (k : ClassText) : Text := k.members.flatMap ClassItem.spelling

def text (k : ClassText) : Text :=
  ('[' : CodePoint) :: (if k.negated then ['!'] else [] : Text) ++ k.inside ++ ([']'] : Text)

/-- There is a member; apart from the two dashes the members are what a class may list. As an
exclamation mark right after the bracket negates, the first member begins with another
character. -/
structure WellFormed (k : ClassText) : Prop where
  nonempty : k.members ≠ []
  allowed : ∀ item ∈ k.items, item.Allowed
  mark : k.negated = false → k.inside.head? ≠ some ('!' : CodePoint)

end ClassText

theorem spelling_ne_nil (item : ClassItem) : item.spelling ≠ [] := by
  cases item <;> simp [ClassItem.spelling]

theorem spellsItems_of_allowed {listed items : List ClassItem} {text rest : Text}
    (hlisted : ∀ item ∈ listed, item.Allowed) (h : SpellsItems items text rest) :
    SpellsItems (listed ++ items) (listed.flatMap ClassItem.spelling ++ text) rest := by
  induction listed with
  | nil => exact h
  | cons item listed ih =>
    obtain ⟨hitem, hlater⟩ := List.forall_mem_cons.1 hlisted
    cases item with
    | single c => exact .single hitem (ih hlater)
    | range low high => exact .range hitem.1 hitem.2.1 hitem.2.2 (ih hlater)

theorem exists_listed_of_spellsItems {items : List ClassItem} {text rest : Text}
    (h : SpellsItems items text rest) :
    ∃ listed trailing, (∀ item ∈ listed, item.Allowed) ∧ items = listed ++ ClassText.dash trailing ∧
      text = items.flatMap ClassItem.spelling ++ (']' : CodePoint) :: rest := by
  induction h with
  | close => exact ⟨[], false, by simp, rfl, rfl⟩
  | dash => exact ⟨[], true, by simp, rfl, rfl⟩
  | @single c _ _ _ hc _ ih =>
    obtain ⟨listed, trailing, hlisted, rfl, rfl⟩ := ih
    exact ⟨.single c :: listed, trailing, List.forall_mem_cons.2 ⟨hc, hlisted⟩, rfl, rfl⟩
  | @range low high _ _ _ hlow hhigh hle _ ih =>
    obtain ⟨listed, trailing, hlisted, rfl, rfl⟩ := ih
    exact ⟨.range low high :: listed, trailing,
      List.forall_mem_cons.2 ⟨⟨hlow, hhigh, hle⟩, hlisted⟩, rfl, rfl⟩

theorem spellsMembers_of_allowed {k : ClassText} (h : ∀ item ∈ k.items, item.Allowed)
    (rest : Text) : SpellsMembers k.members (k.inside ++ (']' : CodePoint) :: rest) rest := by
  obtain ⟨negated, leading, items, trailing⟩ := k
  have hend : SpellsItems (ClassText.dash trailing)
      ((ClassText.dash trailing).flatMap ClassItem.spelling ++ (']' : CodePoint) :: rest) rest := by
    cases trailing with
    | false => exact .close
    | true => exact .dash
  have hitems := spellsItems_of_allowed h hend
  rw [← List.append_assoc, ← List.flatMap_append] at hitems
  cases leading with
  | false => exact .items hitems
  | true => exact .dash hitems

theorem exists_text_of_spellsMembers {members : List ClassItem} {text rest : Text}
    (h : SpellsMembers members text rest) (negated : Bool) :
    ∃ k : ClassText, k.negated = negated ∧ k.members = members ∧
      (∀ item ∈ k.items, item.Allowed) ∧ text = k.inside ++ (']' : CodePoint) :: rest := by
  cases h with
  | items h =>
    obtain ⟨listed, trailing, hlisted, rfl, rfl⟩ := exists_listed_of_spellsItems h
    exact ⟨⟨negated, false, listed, trailing⟩, rfl, rfl, hlisted, rfl⟩
  | dash h =>
    obtain ⟨listed, trailing, hlisted, rfl, rfl⟩ := exists_listed_of_spellsItems h
    exact ⟨⟨negated, true, listed, trailing⟩, rfl, rfl, hlisted, rfl⟩

/-- The character after the bracket is one of the first member, as there is one. -/
theorem head?_inside_append {k : ClassText} (h : k.members ≠ []) (rest : Text) :
    (k.inside ++ rest).head? = k.inside.head? := by
  have hinside : k.inside ≠ [] := by
    obtain ⟨item, members, hmembers⟩ := List.exists_cons_of_ne_nil h
    rw [ClassText.inside, hmembers, List.flatMap_cons]
    exact List.append_ne_nil_of_left_ne_nil (spelling_ne_nil item) _
  exact List.head?_append_of_ne_nil _ hinside

/-- **The classes are those that are written so.** -/
theorem exists_spellsClass_iff {text rest : Text} :
    (∃ negated members, SpellsClass negated members text rest) ↔
      ∃ k : ClassText, k.WellFormed ∧ ('[' : CodePoint) :: text = k.text ++ rest := by
  constructor
  · rintro ⟨negated, members, h⟩
    cases h with
    | listed hmark hne h =>
      obtain ⟨k, hnegated, rfl, hitems, rfl⟩ := exists_text_of_spellsMembers h false
      rw [head?_inside_append hne] at hmark
      exact ⟨k, ⟨hne, hitems, fun _ => hmark⟩, by simp [ClassText.text, hnegated]⟩
    | negated hne h =>
      obtain ⟨k, hnegated, rfl, hitems, rfl⟩ := exists_text_of_spellsMembers h true
      exact ⟨k, ⟨hne, hitems, by simp [hnegated]⟩, by simp [ClassText.text, hnegated]⟩
  · rintro ⟨k, ⟨hne, hitems, hmark⟩, htext⟩
    have hmembers := spellsMembers_of_allowed hitems rest
    cases hnegated : k.negated with
    | false =>
      obtain rfl : text = k.inside ++ (']' : CodePoint) :: rest := by
        simpa [ClassText.text, hnegated] using htext
      refine ⟨false, k.members, .listed ?_ hne hmembers⟩
      rw [head?_inside_append hne]
      exact hmark hnegated
    | true =>
      obtain rfl : text = ('!' : CodePoint) :: (k.inside ++ (']' : CodePoint) :: rest) := by
        simpa [ClassText.text, hnegated] using htext
      exact ⟨true, k.members, .negated hne hmembers⟩

/-! ## Tokens -/

/-- The parts that a pattern is cut into, from left to right. -/
inductive Token
  | escaped (c : CodePoint)
  | pathRun
  | run
  | anyChar
  | oneOf (k : ClassText)
  | opening
  | closing
  | comma
  | plain (c : CodePoint)

namespace Token

def text : Token → Text
  | escaped c => ['\\', c]
  | pathRun => ['*', '*']
  | run => ['*']
  | anyChar => ['?']
  | oneOf k => k.text
  | opening => ['\x7b']
  | closing => ['\x7d']
  | comma => [',']
  | plain c => [c]

/-- A plain character is none that starts another token. -/
def WellFormed : Token → Prop
  | oneOf k => k.WellFormed
  | plain c => c ∉ (['\\', '*', '?', '[', '\x7b', '\x7d', ','] : Text)
  | _ => True

end Token

/-- The next brace is a closing one. -/
def Closes (tokens : List Token) : Prop :=
  ∃ inner later, tokens = inner ++ .closing :: later ∧ Token.opening ∉ inner

/-- What follows each of the tokens `t` has a property. -/
def AfterEach (t : Token) (P : List Token → Prop) (tokens : List Token) : Prop :=
  ∀ earlier later, tokens = earlier ++ t :: later → P later

/-- The text is cut into the tokens. -/
structure Splits (text : Text) (tokens : List Token) : Prop where
  text_eq : text = tokens.flatMap Token.text
  wellFormed : ∀ t ∈ tokens, t.WellFormed
  /-- Two stars in a row are one token. -/
  star : AfterEach .run
    (fun later => (later.flatMap Token.text).head? ≠ some ('*' : CodePoint)) tokens
  /-- Every group is closed before another is opened. -/
  brace : AfterEach .opening Closes tokens

theorem afterEach_nil (t : Token) (P : List Token → Prop) : AfterEach t P [] := by
  intro earlier later h
  simp at h

theorem afterEach_cons_iff {t t' : Token} {P : List Token → Prop} {tokens : List Token} :
    AfterEach t P (t' :: tokens) ↔ (t' = t → P tokens) ∧ AfterEach t P tokens := by
  constructor
  · intro h
    refine ⟨?_, fun earlier later heq => h (t' :: earlier) later (by rw [heq, List.cons_append])⟩
    rintro rfl
    exact h [] tokens rfl
  · rintro ⟨hfirst, hlater⟩ earlier later heq
    cases earlier with
    | nil =>
      obtain ⟨rfl, rfl⟩ := List.cons.inj heq
      exact hfirst rfl
    | cons _ earlier => exact hlater earlier later (List.cons.inj heq).2

theorem splits_nil : Splits [] [] := ⟨rfl, by simp, afterEach_nil _ _, afterEach_nil _ _⟩

/-- What there is to see to at the first token. -/
theorem splits_cons_iff {text : Text} {t : Token} {tokens : List Token} :
    Splits text (t :: tokens) ↔
      ∃ left, text = t.text ++ left ∧ t.WellFormed ∧
        (t = .run → left.head? ≠ some ('*' : CodePoint)) ∧ (t = .opening → Closes tokens) ∧
          Splits left tokens := by
  constructor
  · rintro ⟨rfl, hwell, hstar, hbrace⟩
    obtain ⟨ht, hwell⟩ := List.forall_mem_cons.1 hwell
    obtain ⟨hstar, hstars⟩ := afterEach_cons_iff.1 hstar
    obtain ⟨hbrace, hbraces⟩ := afterEach_cons_iff.1 hbrace
    exact ⟨tokens.flatMap Token.text, rfl, ht, hstar, hbrace, rfl, hwell, hstars, hbraces⟩
  · rintro ⟨left, rfl, ht, hstar, hbrace, rfl, hwell, hstars, hbraces⟩
    exact ⟨rfl, List.forall_mem_cons.2 ⟨ht, hwell⟩, afterEach_cons_iff.2 ⟨hstar, hstars⟩,
      afterEach_cons_iff.2 ⟨hbrace, hbraces⟩⟩

theorem closes_closing (tokens : List Token) : Closes (.closing :: tokens) :=
  ⟨[], tokens, rfl, by simp⟩

theorem closes_cons {t : Token} {tokens : List Token} (ht : t ≠ .opening) (h : Closes tokens) :
    Closes (t :: tokens) := by
  obtain ⟨inner, later, rfl, hinner⟩ := h
  exact ⟨t :: inner, later, rfl, by simpa [Ne.symm ht] using hinner⟩

theorem closes_of_cons {t : Token} {tokens : List Token} (ht : t ≠ .closing)
    (h : Closes (t :: tokens)) : t ≠ .opening ∧ Closes tokens := by
  obtain ⟨inner, later, heq, hinner⟩ := h
  cases inner with
  | nil => exact absurd (List.cons.inj heq).1 ht
  | cons _ inner =>
    obtain ⟨rfl, rfl⟩ := List.cons.inj heq
    rw [List.mem_cons, not_or] at hinner
    exact ⟨Ne.symm hinner.1, inner, later, rfl, hinner.2⟩

/-! ## Tokens of patterns -/

/-- Outside of groups a closing brace and a comma are atoms, too. -/
theorem exists_token_of_spellsAtom {a : Atom} {c : CodePoint} {text left : Text}
    (hc : c ≠ '\x7b') (h : SpellsAtom a (c :: text) left) :
    ∃ t : Token, c :: text = t.text ++ left ∧ t.WellFormed ∧
      (t = .run → left.head? ≠ some ('*' : CodePoint)) ∧ t ≠ .opening := by
  cases h with
  | @escaped c => exact ⟨.escaped c, rfl, trivial, by simp, by simp⟩
  | oneOf hclass =>
    obtain ⟨k, hk, htext⟩ := exists_spellsClass_iff.1 ⟨_, _, hclass⟩
    exact ⟨.oneOf k, htext, hk, by simp, by simp⟩
  | pathRun => exact ⟨.pathRun, rfl, trivial, by simp, by simp⟩
  | run hnext => exact ⟨.run, rfl, trivial, fun _ => hnext, by simp⟩
  | anyChar => exact ⟨.anyChar, rfl, trivial, by simp, by simp⟩
  | plain hplain =>
    by_cases hclosing : c = '\x7d'
    · exact ⟨.closing, by rw [hclosing]; rfl, trivial, by simp, by simp⟩
    by_cases hcomma : c = ','
    · exact ⟨.comma, by rw [hcomma]; rfl, trivial, by simp, by simp⟩
    obtain ⟨h₁, h₂, h₃, h₄⟩ : c ≠ '\\' ∧ c ≠ '[' ∧ c ≠ '*' ∧ c ≠ '?' := by simpa using hplain
    exact ⟨.plain c, rfl, by simp [Token.WellFormed, *], by simp, by simp⟩

theorem exists_splits_of_spellsGroup {first : List Atom} {others : List (List Atom)}
    {text rest : Text} (h : SpellsGroup first others text rest) {tokens : List Token}
    (hrest : Splits rest tokens) : ∃ tokens', Splits text tokens' ∧ Closes tokens' := by
  induction h with
  | close =>
    refine ⟨.closing :: tokens, splits_cons_iff.2 ?_, closes_closing tokens⟩
    exact ⟨_, rfl, trivial, by simp, by simp, hrest⟩
  | comma _ ih =>
    obtain ⟨tokens', hsplits, hcloses⟩ := ih hrest
    refine ⟨.comma :: tokens', splits_cons_iff.2 ?_, closes_cons (by simp) hcloses⟩
    exact ⟨_, rfl, trivial, by simp, by simp, hsplits⟩
  | atom hc hatom _ ih =>
    obtain ⟨tokens', hsplits, hcloses⟩ := ih hrest
    obtain ⟨t, htext, hwell, hstar, hopening⟩ :=
      exists_token_of_spellsAtom (fun h => hc (by simp [h])) hatom
    refine ⟨t :: tokens', splits_cons_iff.2 ?_, closes_cons hopening hcloses⟩
    exact ⟨_, htext, hwell, hstar, fun h => absurd h hopening, hsplits⟩

theorem exists_splits_of_spells {p : Pattern} {text : Text} (h : Spells p text) :
    ∃ tokens, Splits text tokens := by
  induction h with
  | nil => exact ⟨[], splits_nil⟩
  | atom hc hatom _ ih =>
    obtain ⟨tokens, hsplits⟩ := ih
    obtain ⟨t, htext, hwell, hstar, hopening⟩ := exists_token_of_spellsAtom hc hatom
    refine ⟨t :: tokens, splits_cons_iff.2 ?_⟩
    exact ⟨_, htext, hwell, hstar, fun h => absurd h hopening, hsplits⟩
  | group hgroup _ ih =>
    obtain ⟨tokens, hsplits⟩ := ih
    obtain ⟨tokens', hsplits', hcloses⟩ := exists_splits_of_spellsGroup hgroup hsplits
    refine ⟨.opening :: tokens', splits_cons_iff.2 ?_⟩
    exact ⟨_, rfl, trivial, by simp, fun _ => hcloses, hsplits'⟩

/-! ## Patterns of tokens -/

/-- What a text spells outside of groups, and right after an opening brace if the group is
closed. -/
structure SpellsSomething (text : Text) (tokens : List Token) : Prop where
  outside : ∃ p, Spells p text
  inside : Closes tokens → ∃ first others left p, SpellsGroup first others text left ∧ Spells p left

/-- A token that spells an atom goes on with either reading of what follows. -/
theorem SpellsSomething.atom {a : Atom} {c : CodePoint} {text left : Text} {t : Token}
    {tokens : List Token} (ht : t ≠ .closing) (hc : c ∉ (['\x7b', '\x7d', ','] : Text))
    (hatom : SpellsAtom a (c :: text) left) (h : SpellsSomething left tokens) :
    SpellsSomething (c :: text) (t :: tokens) where
  outside := by
    obtain ⟨p, hp⟩ := h.outside
    exact ⟨.atom a :: p, .atom (fun h => hc (by simp [h])) hatom hp⟩
  inside hcloses := by
    obtain ⟨first, others, rest, p, hgroup, hp⟩ := h.inside (closes_of_cons ht hcloses).2
    exact ⟨a :: first, others, rest, p, .atom hc hatom hgroup, hp⟩

theorem spells_of_splits {text : Text} {tokens : List Token} (h : Splits text tokens) :
    SpellsSomething text tokens := by
  induction tokens generalizing text with
  | nil =>
    obtain rfl : text = [] := h.text_eq
    refine ⟨⟨[], .nil⟩, ?_⟩
    rintro ⟨inner, later, heq, -⟩
    simp at heq
  | cons t tokens ih =>
    obtain ⟨left, rfl, hwell, hstar, hbrace, hleft⟩ := splits_cons_iff.1 h
    have hlater := ih hleft
    cases t with
    | escaped c => exact hlater.atom (by simp) (by simp) .escaped
    | pathRun => exact hlater.atom (by simp) (by simp) .pathRun
    | run => exact hlater.atom (by simp) (by simp) (.run (hstar rfl))
    | anyChar => exact hlater.atom (by simp) (by simp) .anyChar
    | oneOf k =>
      obtain ⟨negated, members, hclass⟩ := exists_spellsClass_iff.2 ⟨k, hwell, rfl⟩
      exact hlater.atom (by simp) (by simp) (.oneOf hclass)
    | plain c =>
      obtain ⟨h₁, h₂, h₃, h₄, h₅⟩ : c ≠ '\\' ∧ c ≠ '*' ∧ c ≠ '?' ∧ c ≠ '[' ∧
          c ∉ (['\x7b', '\x7d', ','] : Text) := by
        simpa [Token.WellFormed] using hwell
      exact hlater.atom (by simp) h₅ (.plain (by simp [h₁, h₂, h₃, h₄]))
    | opening =>
      obtain ⟨first, others, rest, p, hgroup, hp⟩ := hlater.inside (hbrace rfl)
      refine ⟨⟨.group first others :: p, .group hgroup hp⟩, fun hcloses => ?_⟩
      exact absurd rfl (closes_of_cons (by simp) hcloses).1
    | closing =>
      obtain ⟨p, hp⟩ := hlater.outside
      refine ⟨⟨.atom (.literal '\x7d') :: p, .atom (by simp) (.plain (by simp)) hp⟩, fun _ => ?_⟩
      exact ⟨[], [], left, p, .close, hp⟩
    | comma =>
      obtain ⟨p, hp⟩ := hlater.outside
      refine ⟨⟨.atom (.literal ',') :: p, .atom (by simp) (.plain (by simp)) hp⟩,
        fun hcloses => ?_⟩
      obtain ⟨first, others, rest, p, hgroup, hp⟩ :=
        hlater.inside (closes_of_cons (by simp) hcloses).2
      exact ⟨[], first :: others, rest, p, .comma hgroup, hp⟩

/-- **The patterns are the texts that can be cut into tokens.** -/
theorem compile_ok_iff_splits (pattern : Text) :
    (∃ r, compile pattern = .ok r) ↔ ∃ tokens, Splits pattern tokens := by
  constructor
  · rintro ⟨r, h⟩
    obtain ⟨p, hparse, -⟩ := compile_eq_ok_iff.1 h
    exact exists_splits_of_spells (parse_eq_ok_iff.1 hparse)
  · rintro ⟨tokens, h⟩
    obtain ⟨p, hspells⟩ := (spells_of_splits h).outside
    exact ⟨.ofPattern p, compile_eq_ok_iff.2 ⟨p, parse_eq_ok_iff.2 hspells, rfl⟩⟩

end ArchiveIndex.Glob
