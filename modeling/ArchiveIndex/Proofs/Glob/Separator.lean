import ArchiveIndex.Proofs.Glob.Compilation

/-!
# What takes a separator

A pattern that matches a text shares it out: in each group an alternative is chosen, each atom
that is left takes a piece of the text, and the pieces in turn are the text. There may be several
ways to do so.

**Theorem (`separator_taken`).** However a pattern shares out the normal form of a name that it
selects, every separator is taken by a literal separator, by `**`, or by a class that lists a
range across the separator. If the pattern has no such class, no `**` and no group, the name has
as many separators as the pattern.

A class cannot name the separator, not even at the end of a range, and a negated class never
matches it. So a range across it, in a class that is not negated, is the only way around the
rule (`range_takes_separator`).
-/

namespace ArchiveIndex.Glob

/-! ## Shares -/

/-- An atom with the piece of a text that it takes. -/
structure Share where
  atom : Atom
  taken : Text

/-- The text that is shared out. -/
def taken (shares : List Share) : Text := shares.flatMap Share.taken

/-- Every atom matches what it takes. -/
def Fair (shares : List Share) : Prop := ∀ s ∈ shares, s.atom.Matches s.taken

/-- The ways in which a pattern shares out a text. -/
inductive SharesOut : Pattern → List Share → Prop
  | nil : SharesOut [] []
  | atom {s : Share} {p : Pattern} {shares : List Share} :
      s.atom.Matches s.taken → SharesOut p shares → SharesOut (.atom s.atom :: p) (s :: shares)
  | group {first : List Atom} {others : List (List Atom)} {p : Pattern}
      {inner shares : List Share} :
      inner.map Share.atom ∈ first :: others → Fair inner → SharesOut p shares →
      SharesOut (.group first others :: p) (inner ++ shares)

@[simp] theorem taken_nil : taken [] = [] := rfl

@[simp] theorem taken_cons (s : Share) (shares : List Share) :
    taken (s :: shares) = s.taken ++ taken shares := rfl

@[simp] theorem taken_append (inner shares : List Share) :
    taken (inner ++ shares) = taken inner ++ taken shares := List.flatMap_append

theorem sequenceMatches_iff_shares (atoms : List Atom) (w : Text) :
    SequenceMatches Atom.Matches atoms w ↔
      ∃ shares, shares.map Share.atom = atoms ∧ Fair shares ∧ w = taken shares := by
  induction atoms generalizing w with
  | nil =>
    constructor
    · rintro rfl
      exact ⟨[], rfl, by simp [Fair], rfl⟩
    · rintro ⟨shares, hatoms, -, rfl⟩
      rw [List.map_eq_nil_iff.1 hatoms]
      rfl
  | cons a atoms ih =>
    constructor
    · rintro ⟨u, v, rfl, hu, hv⟩
      obtain ⟨shares, rfl, hfair, rfl⟩ := (ih v).1 hv
      exact ⟨⟨a, u⟩ :: shares, rfl, List.forall_mem_cons.2 ⟨hu, hfair⟩, rfl⟩
    · rintro ⟨shares, hatoms, hfair, rfl⟩
      obtain ⟨s, later, rfl, rfl, rfl⟩ := List.map_eq_cons_iff.1 hatoms
      obtain ⟨hs, hlater⟩ := List.forall_mem_cons.1 hfair
      exact ⟨s.taken, taken later, rfl, hs, (ih _).2 ⟨later, rfl, hlater, rfl⟩⟩

/-- **A pattern matches the texts that it can share out.** -/
theorem matches_iff_sharesOut (p : Pattern) (w : Text) :
    p.Matches w ↔ ∃ shares, SharesOut p shares ∧ w = taken shares := by
  induction p generalizing w with
  | nil =>
    constructor
    · rintro rfl
      exact ⟨[], .nil, rfl⟩
    · rintro ⟨shares, hshares, rfl⟩
      cases hshares
      rfl
  | cons piece p ih =>
    constructor
    · rintro ⟨u, v, rfl, hu, hv⟩
      obtain ⟨shares, hshares, rfl⟩ := (ih v).1 hv
      cases piece with
      | atom a => exact ⟨⟨a, u⟩ :: shares, .atom (s := ⟨a, u⟩) hu hshares, rfl⟩
      | group first others =>
        obtain ⟨alternative, halternative, hu⟩ := hu
        obtain ⟨inner, rfl, hfair, rfl⟩ := (sequenceMatches_iff_shares alternative u).1 hu
        exact ⟨inner ++ shares, .group halternative hfair hshares, by rw [taken_append]⟩
    · rintro ⟨_, hshares, rfl⟩
      cases hshares with
      | @atom s _ later hs hlater =>
        exact ⟨s.taken, taken later, rfl, hs, (ih _).2 ⟨later, hlater, rfl⟩⟩
      | @group first others _ inner later halternative hfair hlater =>
        refine ⟨taken inner, taken later, taken_append inner later, ?_, ?_⟩
        · exact ⟨_, halternative, (sequenceMatches_iff_shares _ _).2 ⟨inner, rfl, hfair, rfl⟩⟩
        · exact (ih _).2 ⟨later, hlater, rfl⟩

/-- The atoms that take something are atoms of the pattern, and they match what they take. -/
theorem forall_of_sharesOut {P : Atom → Prop} {p : Pattern} {shares : List Share}
    (hp : ∀ piece ∈ p, piece.Forall P) (h : SharesOut p shares) :
    ∀ s ∈ shares, P s.atom ∧ s.atom.Matches s.taken := by
  induction h with
  | nil => simp
  | atom hs _ ih =>
    obtain ⟨hatom, hp⟩ := List.forall_mem_cons.1 hp
    exact List.forall_mem_cons.2 ⟨⟨hatom, hs⟩, ih hp⟩
  | group halternative hfair _ ih =>
    obtain ⟨hgroup, hp⟩ := List.forall_mem_cons.1 hp
    intro s hs
    rcases List.mem_append.1 hs with hs | hs
    · exact ⟨hgroup _ halternative _ (List.mem_map_of_mem hs), hfair s hs⟩
    · exact ih hp s hs

/-! ## Atoms that match a separator -/

/-- There is a text that spells the atom. -/
def Atom.Spelled (a : Atom) : Prop := ∃ text rest, SpellsAtom a text rest

/-- A range from before the separator to after it. -/
def ClassItem.Straddles : ClassItem → Prop
  | single _ => False
  | range low high => low < Path.separator ∧ Path.separator < high

/-- A class, not negated, that lists a range across the separator. -/
def Atom.Straddles : Atom → Prop
  | oneOf false members => ∃ item ∈ members, item.Straddles
  | _ => False

/-- Since a class cannot name the separator, only a range across it holds the separator. -/
theorem contains_separator_iff {item : ClassItem} (h : item = .single '-' ∨ item.Allowed) :
    item.contains Path.separator = true ↔ item.Straddles := by
  cases item with
  | single c =>
    have hc : Path.separator ≠ c := by
      rcases h with h | h
      · obtain rfl : c = '-' := by simpa using h
        decide
      · rintro rfl
        simp [ClassItem.Allowed] at h
    simp [ClassItem.contains, ClassItem.Straddles, hc]
  | range low high =>
    obtain ⟨hlow, hhigh, -⟩ : (ClassItem.range low high).Allowed := by simpa using h
    have hlow' : low ≠ Path.separator := by
      rintro rfl
      simp at hlow
    have hhigh' : Path.separator ≠ high := by
      rintro rfl
      simp at hhigh
    simp only [ClassItem.contains, ClassItem.Straddles, Bool.and_eq_true, decide_eq_true_eq]
    rw [lt_iff_le_and_ne, lt_iff_le_and_ne]
    tauto

/-- **The atoms that a separator can fall to.** -/
theorem matches_separator_iff {a : Atom} (h : a.Spelled) :
    (∃ w, a.Matches w ∧ Path.separator ∈ w) ↔
      a = .literal Path.separator ∨ a = .pathRun ∨ a.Straddles := by
  cases a with
  | literal c =>
    simp only [Atom.Matches, Atom.Straddles, exists_eq_left, List.mem_singleton, or_false,
      Atom.literal.injEq, reduceCtorEq, eq_comm]
  | anyChar =>
    simp only [Atom.Straddles, reduceCtorEq, or_false, iff_false]
    rintro ⟨_, ⟨x, rfl, hx⟩, hsep⟩
    exact hx (List.mem_singleton.1 hsep).symm
  | run =>
    simp only [Atom.Straddles, reduceCtorEq, or_false, iff_false]
    rintro ⟨w, hw, hsep⟩
    exact hw hsep
  | pathRun => exact ⟨fun _ => .inr (.inl rfl), fun _ => ⟨[Path.separator], trivial, by simp⟩⟩
  | oneOf negated members =>
    obtain ⟨text, rest, hatom⟩ := h
    obtain ⟨-, hmembers⟩ := members_of_spellsAtom hatom
    cases negated with
    | true =>
      simp only [Atom.Straddles, reduceCtorEq, or_false, iff_false]
      rintro ⟨_, ⟨x, rfl, hx, -⟩, hsep⟩
      exact hx (List.mem_singleton.1 hsep).symm
    | false =>
      simp only [Atom.Straddles, reduceCtorEq, false_or]
      constructor
      · rintro ⟨_, ⟨x, rfl, item, hitem, hx⟩, hsep⟩
        obtain rfl : Path.separator = x := List.mem_singleton.1 hsep
        exact ⟨item, hitem, (contains_separator_iff (hmembers item hitem)).1 hx⟩
      · rintro ⟨item, hitem, hstraddles⟩
        refine ⟨[Path.separator], ⟨Path.separator, rfl, item, hitem, ?_⟩, by simp⟩
        exact (contains_separator_iff (hmembers item hitem)).2 hstraddles

/-! ## Counting separators -/

/-- A separator is taken for each atom that stands for one, and no other. -/
theorem count_taken {shares : List Share}
    (h : ∀ s ∈ shares, s.atom.Spelled) (hfair : Fair shares)
    (hrun : ∀ s ∈ shares, s.atom ≠ .pathRun ∧ ¬ s.atom.Straddles) :
    (taken shares).count Path.separator =
      (shares.map Share.atom).count (.literal Path.separator) := by
  induction shares with
  | nil => rfl
  | cons s shares ih =>
    obtain ⟨hspelled, h⟩ := List.forall_mem_cons.1 h
    obtain ⟨hs, hfair⟩ := List.forall_mem_cons.1 hfair
    obtain ⟨⟨hpath, hstraddles⟩, hrun⟩ := List.forall_mem_cons.1 hrun
    rw [taken_cons, List.count_append, ih h hfair hrun, List.map_cons, List.count_cons, add_comm]
    congr 1
    by_cases hliteral : s.atom = .literal Path.separator
    · rw [hliteral] at hs ⊢
      obtain hs : s.taken = [Path.separator] := hs
      simp [hs]
    · have hnone : Path.separator ∉ s.taken := fun hsep => by
        rcases (matches_separator_iff hspelled).1 ⟨s.taken, hs, hsep⟩ with h | h | h
        · exact hliteral h
        · exact hpath h
        · exact hstraddles h
      rw [List.count_eq_zero_of_not_mem hnone]
      simp [hliteral]

/-- Without groups, the atoms of a pattern take one piece each. -/
theorem eq_map_of_sharesOut {p : Pattern} {shares : List Share} (h : SharesOut p shares)
    (hatoms : ∀ piece ∈ p, ∃ a, piece = .atom a) :
    p = (shares.map Share.atom).map Piece.atom := by
  induction h with
  | nil => rfl
  | atom _ _ ih => rw [List.map_cons, List.map_cons, ← ih (List.forall_mem_cons.1 hatoms).2]
  | group => simpa using (List.forall_mem_cons.1 hatoms).1

/-! ## Selected names -/

/-- Where the separators of a text go that a pattern matches. -/
structure SeparatorsTaken (p : Pattern) (w : Text) : Prop where
  /-- The text can be shared out. -/
  shared : ∃ shares, SharesOut p shares ∧ w = taken shares
  /-- Which atoms of the pattern a separator can fall to. -/
  atoms : ∀ piece ∈ p, piece.Forall fun a => (∃ u, a.Matches u ∧ Path.separator ∈ u) ↔
    a = .literal Path.separator ∨ a = .pathRun ∨ a.Straddles
  /-- Which atoms the separators of the text fall to, in whatever way it is shared out. -/
  explicit : ∀ shares, SharesOut p shares → w = taken shares →
    ∀ s ∈ shares, Path.separator ∈ s.taken →
      s.atom = .literal Path.separator ∨ s.atom = .pathRun ∨ s.atom.Straddles
  /-- How many there are, if each falls to an atom of its own. -/
  count : (∀ piece ∈ p, ∃ a, piece = .atom a ∧ a ≠ .pathRun ∧ ¬ a.Straddles) →
    w.count Path.separator = p.count (.atom (.literal Path.separator))

theorem separatorsTaken_of_spells {p : Pattern} {text w : Text} (h : Spells p text)
    (hw : p.Matches w) : SeparatorsTaken p w := by
  have hspelled : ∀ piece ∈ p, piece.Forall Atom.Spelled :=
    forall_of_spells (fun hatom => ⟨_, _, hatom⟩) h
  obtain ⟨shares, hshares, htaken⟩ := (matches_iff_sharesOut p w).1 hw
  refine
    { shared := ⟨shares, hshares, htaken⟩
      atoms := forall_of_spells (fun hatom => matches_separator_iff ⟨_, _, hatom⟩) h
      explicit := fun shares hshares _ s hs hsep => ?_
      count := fun hplain => ?_ }
  · obtain ⟨hatom, hmatch⟩ := forall_of_sharesOut hspelled hshares s hs
    exact (matches_separator_iff hatom).1 ⟨s.taken, hmatch, hsep⟩
  · have hp : p = (shares.map Share.atom).map Piece.atom :=
      eq_map_of_sharesOut hshares fun piece hpiece => (hplain piece hpiece).imp fun _ h => h.1
    have hrun : ∀ s ∈ shares, s.atom ≠ .pathRun ∧ ¬ s.atom.Straddles := by
      intro s hs
      have hpiece : Piece.atom s.atom ∈ p := by
        rw [hp]
        exact List.mem_map_of_mem (List.mem_map_of_mem hs)
      obtain ⟨a, ha, hplain⟩ := hplain _ hpiece
      rwa [Piece.atom.inj ha]
    have hatoms := forall_of_sharesOut hspelled hshares
    rw [htaken, count_taken (fun s hs => (hatoms s hs).1) (fun s hs => (hatoms s hs).2) hrun, hp]
    exact (List.count_map_of_injective _ _ (fun _ _ => Piece.atom.inj) _).symm

/-- **Separators are taken explicitly, or by a range across them.** -/
theorem separator_taken {pattern name : Text} {r : Regex} (h : compile pattern = .ok r)
    (hname : r.selects name = true) :
    ∃ p, Spells p pattern ∧ SeparatorsTaken p (Path.normalize name) := by
  obtain ⟨p, hparse, rfl⟩ := compile_eq_ok_iff.1 h
  have hspells : Spells p pattern := parse_eq_ok_iff.1 hparse
  rw [Regex.selects, fullMatch_iff, ofPattern_matches_iff] at hname
  exact ⟨p, hspells, separatorsTaken_of_spells hspells hname⟩

/-- Two ranges that end right before the separator and start right after it, and a negated
class: none of them takes one. -/
theorem separator_taken_beside_ranges : ∃ r, compile "[+-.]/[!a]\\/[0-9]*" = .ok r ∧
    r.selects ".//b/12/" = true ∧
      ∃ p, Spells p "[+-.]/[!a]\\/[0-9]*" ∧
        SeparatorsTaken p (Path.normalize ".//b/12/") := by
  obtain ⟨r, hr, hname⟩ : ∃ r, compile "[+-.]/[!a]\\/[0-9]*" = .ok r ∧
      r.selects ".//b/12/" = true := by
    refine ⟨.ofPattern [.atom (.oneOf false [.range '+' '.']), .atom (.literal '/'),
      .atom (.oneOf true [.single 'a']), .atom (.literal '/'),
      .atom (.oneOf false [.range '0' '9']), .atom .run], by cbv, by cbv⟩
  exact ⟨r, hr, hname, separator_taken hr hname⟩

/-- A range from the character before the separator to the one after it takes a separator,
although the pattern has none and no `**`. -/
theorem range_takes_separator : ∃ r p, compile "a[.-0]b" = .ok r ∧ r.selects "a/b" = true ∧
    Pattern.parse "a[.-0]b" = .ok p ∧
      (∀ piece ∈ p, ∃ a, piece = .atom a ∧ a ≠ .literal Path.separator ∧ a ≠ .pathRun) ∧
        (Path.normalize "a/b").count Path.separator = 1 := by
  refine ⟨_, [.atom (.literal 'a'), .atom (.oneOf false [.range '.' '0']), .atom (.literal 'b')],
    by cbv, by cbv, by cbv, ?_, by cbv⟩
  simp [Path.separator]

end ArchiveIndex.Glob
