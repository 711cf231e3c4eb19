import ArchiveIndex.Glob.Compiled
import ArchiveIndex.Proofs.Glob.Expression
import ArchiveIndex.Proofs.Glob.Grammar
import ArchiveIndex.Proofs.Glob.Matching
import Mathlib

/-!
# Compiling a pattern keeps its meaning

**Theorem (`compile_preserves_meaning`).** A pattern that compiles is spelled by its text in one
way. The text of its expression is well-formed, and the language that the text denotes has just
the texts that the pattern matches. The matcher selects a name exactly if the pattern matches
the normal form of the name.

The reader of expressions is a machine that goes through the text once, so a text that is put
together is read part by part. `Reads text M` says of one part that the reader, started between
two parts in any group, comes out between two parts in the same group, and that the branch has
grown by what matches `M`. It holds of the empty text, of one text after another, and of every
term and group, so it holds of the whole expression. Inside a set the reader is led through its
modes instead (`run_items`), and nothing can be taken for an operator: whatever has a meaning
to the reader is special, and special characters are written after a backslash.
-/

namespace ArchiveIndex.Glob

open Expression Expression.Reading

/-! ## One character -/

theorem operators_subset : operators ⊆ specialChars := by decide +kernel

theorem setOperators_subset : setOperators ⊆ specialChars := by decide +kernel

theorem isAlphanum_of_special : ∀ c ∈ specialChars, isAlphanum c = false := by
  have h : (specialChars.all fun c => !isAlphanum c) = true := by decide +kernel
  simpa using h

/-- An escaped character is read as one character, quoted if it is special. -/
theorem run_escape {σ : Reading} (hσ : σ.quoting = false) (c : CodePoint) :
    σ.run (escape c) = σ.take (decide (c ∈ specialChars)) c := by
  obtain ⟨quoting, mode, frame, outer⟩ := σ
  obtain rfl : quoting = false := hσ
  by_cases hc : c ∈ specialChars
  · simp [escape, hc, Reading.run_cons, Reading.step, isAlphanum_of_special c hc]
  · have hslash : c ≠ '\\' := by
      rintro rfl
      exact hc (by decide +kernel)
    simp [escape, hc, Reading.run_cons, Reading.step, hslash]

/-- Whatever has a meaning somewhere is special, so an escaped character stands for itself
outside of sets and in them. -/
theorem quoted_or_not_mem {ops : Text} (h : ops ⊆ specialChars) (c : CodePoint) :
    decide (c ∈ specialChars) = true ∨ c ∉ ops := by
  by_cases hc : c ∈ specialChars
  · exact .inl (decide_eq_true hc)
  · exact .inr fun hops => hc (h hops)

theorem run_escape_between (f : Frame) (outer : List Frame) (c : CodePoint) :
    (between f outer).run (escape c) =
      some (between (f.push (.set (.literal c))) outer) := by
  rw [run_escape rfl]
  exact if_pos (quoted_or_not_mem operators_subset c)

theorem takeMember_escape (σ : Reading) (negated : Bool) (items : List ClassItem) (c : CodePoint) :
    σ.takeMember negated items (decide (c ∈ specialChars)) c =
      some { σ with mode := .members negated (.single c :: items) } :=
  if_pos (quoted_or_not_mem setOperators_subset c)

/-! ## Sets -/

theorem run_item {item : ClassItem} (h : item.Ascending) (negated : Bool)
    (items : List ClassItem) (f : Frame) (outer : List Frame) :
    (among negated items f outer).run item.text = some (among negated (item :: items) f outer) := by
  cases item with
  | single c =>
    rw [ClassItem.text, run_escape rfl]
    exact takeMember_escape _ negated items c
  | range low high =>
    have hlow : (among negated items f outer).run (escape low) =
        some (among negated (.single low :: items) f outer) := by
      rw [run_escape rfl]
      exact takeMember_escape _ negated items low
    have hdash : (among negated (.single low :: items) f outer).step '-' =
        some ⟨false, .range negated items low, f, outer⟩ := rfl
    rw [ClassItem.text, run_append_of_run hlow, run_cons_of_step hdash, run_escape rfl]
    exact if_pos ⟨quoted_or_not_mem setOperators_subset high, h⟩

theorem run_items {members : List ClassItem} (h : ∀ item ∈ members, item.Ascending)
    (negated : Bool) (items : List ClassItem) (f : Frame) (outer : List Frame) :
    (among negated items f outer).run (members.flatMap ClassItem.text) =
      some (among negated (members.reverse ++ items) f outer) := by
  induction members generalizing items with
  | nil => rfl
  | cons item members ih =>
    obtain ⟨hitem, hmembers⟩ := List.forall_mem_cons.1 h
    rw [List.flatMap_cons, run_append_of_run (run_item hitem negated items f outer), ih hmembers]
    simp

/-- A set in brackets has a member, and its ranges ascend. -/
def CharSet.WellFormed : CharSet → Prop
  | bracket _ items => items ≠ [] ∧ ∀ item ∈ items, item.Ascending
  | _ => True

theorem run_escape_opened (f : Frame) (outer : List Frame) (c : CodePoint) :
    (opened f outer).run (escape c) = (among false [] f outer).run (escape c) := by
  rw [run_escape rfl, run_escape rfl]
  -- the mark of negation is special, so it comes quoted
  have hmark : ¬ (¬ decide (c ∈ specialChars) = true ∧ c = '^') := by
    rintro ⟨hc, rfl⟩
    exact hc (by decide +kernel)
  exact if_neg hmark

/-- The members of a set that is not negated are read like those of any other. -/
theorem run_items_opened {items : List ClassItem} (hne : items ≠ []) (f : Frame)
    (outer : List Frame) :
    (opened f outer).run (items.flatMap ClassItem.text) =
      (among false [] f outer).run (items.flatMap ClassItem.text) := by
  obtain ⟨item, items, rfl⟩ := List.exists_cons_of_ne_nil hne
  have hfirst : ∃ c rest, item.text = escape c ++ rest := by
    cases item with
    | single c => exact ⟨c, [], (List.append_nil _).symm⟩
    | range low high => exact ⟨low, '-' :: escape high, rfl⟩
  obtain ⟨c, rest, hitem⟩ := hfirst
  rw [List.flatMap_cons, hitem, List.append_assoc, Reading.run_append, Reading.run_append,
    run_escape_opened]

theorem run_set {s : CharSet} (h : s.WellFormed) (f : Frame) (outer : List Frame) :
    (between f outer).run s.text = some (between (f.push (.set s)) outer) := by
  cases s with
  | literal c => exact run_escape_between f outer c
  | any => rfl
  | bracket negated items =>
    obtain ⟨hne, hitems⟩ := h
    have hopen : (between f outer).step '[' = some (opened f outer) := rfl
    have hmembers : (opened f outer).run
        ((if negated then ['^'] else [] : Text) ++ items.flatMap ClassItem.text) =
          some (among negated items.reverse f outer) := by
      rw [← List.append_nil items.reverse, ← run_items hitems]
      cases negated with
      | false => exact run_items_opened hne f outer
      | true => rfl
    have hclose : (among negated items.reverse f outer).run [']'] =
        some (between (f.push (.set (.bracket negated items))) outer) := by
      have hne' : items.reverse ≠ [] := by simpa using hne
      have hstep : (among negated items.reverse f outer).step ']' =
          if (']' : CodePoint) = ']' ∧ items.reverse ≠ [] then
            some (between (f.push (.set (.bracket negated items.reverse.reverse))) outer)
          else none := rfl
      rw [Reading.run_cons, hstep, if_pos ⟨rfl, hne'⟩, List.reverse_reverse]
      rfl
    rw [CharSet.text, List.cons_append, List.cons_append, run_cons_of_step hopen,
      run_append_of_run hmembers, hclose]

/-! ## Parts in turn -/

/-- The texts that have a property, as a language. -/
def matching (M : Text → Prop) : Language CodePoint := {w | M w}

/-- Between two parts of any group, the text is read as something that matches what `M` says,
after what has been read of the branch. -/
def Reads (text : Text) (M : Text → Prop) : Prop :=
  ∀ f outer, ∃ f', (between f outer).run text = some (between f' outer) ∧
    f'.closed = f.closed ∧ f'.branch.language = f.branch.language * matching M

theorem matching_nil {α : Type} (M : α → Text → Prop) :
    matching (SequenceMatches M []) = 1 := rfl

theorem matching_cons {α : Type} (M : α → Text → Prop) (a : α) (rest : List α) :
    matching (SequenceMatches M (a :: rest)) =
      matching (M a) * matching (SequenceMatches M rest) := by
  ext w
  constructor
  · rintro ⟨u, v, rfl, hu, hv⟩
    exact Language.append_mem_mul hu hv
  · intro h
    obtain ⟨u, hu, v, hv, rfl⟩ := Language.mem_mul.1 h
    exact ⟨u, v, rfl, hu, hv⟩

theorem reads_sequence {α : Type} {M : α → Text → Prop} {written : α → Text}
    {items : List α} (h : ∀ a ∈ items, Reads (written a) (M a)) :
    Reads (items.flatMap written) (SequenceMatches M items) := by
  induction items with
  | nil => exact fun f outer => ⟨f, rfl, rfl, by rw [matching_nil, mul_one]⟩
  | cons a rest ih =>
    intro f outer
    obtain ⟨ha, hrest⟩ := List.forall_mem_cons.1 h
    obtain ⟨g, hg, hgclosed, hglanguage⟩ := ha f outer
    obtain ⟨g', hg', hclosed, hlanguage⟩ := ih hrest g outer
    refine ⟨g', ?_, hclosed.trans hgclosed, ?_⟩
    · rw [List.flatMap_cons, run_append_of_run hg, hg']
    · rw [hlanguage, hglanguage, matching_cons, mul_assoc]

/-! ## Terms -/

def Term.WellFormed : Term → Prop
  | one s | many s => s.WellFormed

theorem matching_many (s : CharSet) :
    matching (Term.many s).Matches = (Expression.star (.set s)).language := by
  ext w
  constructor
  · intro h
    have hpieces : w = (w.map fun x => [x]).flatten := by
      rw [← List.flatMap_def, List.flatMap_singleton']
    refine Language.mem_kstar.2 ⟨w.map fun x => [x], hpieces, ?_⟩
    intro u hu
    obtain ⟨x, hx, rfl⟩ := List.mem_map.1 hu
    exact ⟨x, rfl, h x hx⟩
  · intro h x hx
    obtain ⟨pieces, rfl, hpieces⟩ := Language.mem_kstar.1 h
    obtain ⟨u, hu, hxu⟩ := List.mem_flatten.1 hx
    obtain ⟨y, rfl, hy⟩ := hpieces u hu
    rwa [List.mem_singleton.1 hxu]

theorem reads_term {t : Term} (h : t.WellFormed) : Reads t.text t.Matches := by
  intro f outer
  cases t with
  | one s => exact ⟨f.push (.set s), run_set h f outer, rfl, rfl⟩
  | many s =>
    refine ⟨⟨f.closed, .seq f.branch (.star (.set s)), none⟩, ?_, rfl, ?_⟩
    · rw [Term.text, run_append_of_run (run_set h f outer)]
      rfl
    · rw [matching_many]
      rfl

/-! ## Groups -/

/-- Without a bar, the group means what its only branch does. -/
theorem language_whole_new {g : Frame} {M : Text → Prop}
    (hclosed : g.closed = Frame.new.closed)
    (hbranch : g.branch.language = Frame.new.branch.language * matching M) :
    g.whole.language = matching M := by
  have hwhole : g.whole = g.branch := by
    rw [Frame.whole, hclosed]
    rfl
  have hempty : Frame.new.branch.language = 1 := rfl
  rw [hwhole, hbranch, hempty, one_mul]

/-- A bar adds the branch after it as an alternative. -/
theorem language_whole_bar {f g : Frame} {M : Text → Prop} (hclosed : g.closed = f.bar.closed)
    (hbranch : g.branch.language = f.bar.branch.language * matching M) :
    g.whole.language = f.whole.language + matching M := by
  have hwhole : g.whole = .alt f.whole g.branch := by
    rw [Frame.whole, hclosed]
    rfl
  have hempty : f.bar.branch.language = 1 := rfl
  rw [hwhole, language, hbranch, hempty, one_mul]

theorem run_branches {α : Type} {M : α → Text → Prop} {written : α → Text}
    {others : List (List α)} (h : ∀ branch ∈ others, ∀ a ∈ branch, Reads (written a) (M a))
    (f : Frame) (outer : List Frame) :
    ∃ g, (between f outer).run (others.flatMap fun branch => '|' :: branch.flatMap written) =
        some (between g outer) ∧
      ∀ w, w ∈ g.whole.language ↔
        w ∈ f.whole.language ∨ ∃ branch ∈ others, SequenceMatches M branch w := by
  induction others generalizing f with
  | nil => exact ⟨f, rfl, fun w => by simp⟩
  | cons branch others ih =>
    obtain ⟨hbranch, hothers⟩ := List.forall_mem_cons.1 h
    obtain ⟨g, hg, hclosed, hlanguage⟩ := reads_sequence hbranch f.bar outer
    obtain ⟨g', hg', hwhole⟩ := ih hothers g
    have hbar : (between f outer).step '|' = some (between f.bar outer) := rfl
    refine ⟨g', ?_, fun w => ?_⟩
    · rw [List.flatMap_cons, List.cons_append, run_cons_of_step hbar, run_append_of_run hg, hg']
    · rw [hwhole, language_whole_bar hclosed hlanguage, Language.mem_add, List.exists_mem_cons_iff,
        or_assoc]
      rfl

theorem reads_piece {p : Piece Term} (h : p.Forall Term.WellFormed) :
    Reads (p.text Term.text) (p.Matches Term.Matches) := by
  cases p with
  | atom t => exact reads_term h
  | group first others =>
    intro f outer
    have hreads : ∀ branch ∈ first :: others, ∀ t ∈ branch, Reads t.text t.Matches :=
      fun branch hbranch t ht => reads_term (h branch hbranch t ht)
    obtain ⟨hfirst, hothers⟩ := List.forall_mem_cons.1 hreads
    obtain ⟨g, hg, hclosed, hlanguage⟩ := reads_sequence hfirst .new (f :: outer)
    obtain ⟨g', hg', hwhole⟩ := run_branches hothers g (f :: outer)
    have hopen : (between f outer).run ['(', '?', ':'] = some (between .new (f :: outer)) := rfl
    have hclose : (between g' (f :: outer)).run [')'] = some (between (f.push g'.whole) outer) :=
      rfl
    refine ⟨f.push g'.whole, ?_, rfl, ?_⟩
    · rw [Piece.text, List.append_assoc, List.append_assoc, run_append_of_run hopen,
        run_append_of_run hg, run_append_of_run hg', hclose]
    · have hgroup : g'.whole.language =
          matching ((Piece.group first others).Matches Term.Matches) := by
        ext w
        rw [hwhole, language_whole_new hclosed hlanguage]
        exact (List.exists_mem_cons_iff (SequenceMatches Term.Matches · w) first others).symm
      rw [← hgroup]
      rfl

/-- **The written form of an expression denotes its language.** -/
theorem read_text {r : Regex} (h : ∀ p ∈ r, p.Forall Term.WellFormed) :
    ∃ x, Expression.read r.text = some x ∧ ∀ w, w ∈ x.language ↔ r.Matches w := by
  obtain ⟨f, hf, hclosed, hlanguage⟩ := reads_sequence (fun p hp => reads_piece (h p hp)) .new []
  refine ⟨f.whole, ?_, fun w => ?_⟩
  · rw [Expression.read, Regex.text, hf]
    rfl
  · rw [language_whole_new hclosed hlanguage]
    rfl

/-! ## The compiler -/

theorem wellFormed_ofAtom {a : Atom} (h : a.WellFormed) : (Term.ofAtom a).WellFormed := by
  cases a with
  | literal | pathRun => trivial
  | anyChar | run => exact ⟨by simp, by simp [ClassItem.Ascending]⟩
  | oneOf negated members =>
    cases negated with
    | false => exact h
    | true => exact ⟨by simp, List.forall_mem_cons.2 ⟨trivial, h.2⟩⟩

theorem wellFormed_ofPattern {p : Pattern} (h : ∀ piece ∈ p, piece.Forall Atom.WellFormed) :
    ∀ piece ∈ Regex.ofPattern p, piece.Forall Term.WellFormed := by
  intro piece hpiece
  obtain ⟨source, hsource, rfl⟩ := List.mem_map.1 hpiece
  have hwell := h source hsource
  cases source with
  | atom a => exact wellFormed_ofAtom hwell
  | group first others =>
    intro branch hbranch t ht
    obtain ⟨alternative, halternative, rfl⟩ :=
      List.mem_map.1 (show branch ∈ (first :: others).map (List.map Term.ofAtom) from hbranch)
    obtain ⟨a, ha, rfl⟩ := List.mem_map.1 ht
    exact wellFormed_ofAtom (hwell alternative halternative a ha)

theorem compile_eq_ok_iff {pattern : Text} {r : Regex} :
    compile pattern = .ok r ↔ ∃ p, Pattern.parse pattern = .ok p ∧ r = .ofPattern p := by
  unfold compile
  cases Pattern.parse pattern with
  | error fault => simp
  | ok p => simp [eq_comm]

/-- **Compiling keeps the meaning of a pattern.** -/
theorem compile_preserves_meaning {pattern : Text} {r : Regex} (h : compile pattern = .ok r) :
    ∃ p x, (∀ q, Spells q pattern ↔ q = p) ∧ Expression.read r.text = some x ∧
      (∀ w, w ∈ x.language ↔ p.Matches w) ∧
        ∀ name : Text, r.selects name = true ↔ p.Matches (Path.normalize name) := by
  obtain ⟨p, hparse, rfl⟩ := compile_eq_ok_iff.1 h
  have hspells : Spells p pattern := parse_eq_ok_iff.1 hparse
  obtain ⟨x, hread, hx⟩ := read_text (wellFormed_ofPattern (wellFormed_of_spells hspells))
  refine ⟨p, x, fun q => ?_, hread, fun w => ?_, fun name => ?_⟩
  · rw [← parse_eq_ok_iff, hparse, Except.ok.injEq, eq_comm]
  · rw [hx, ofPattern_matches_iff]
  · rw [Regex.selects, fullMatch_iff, ofPattern_matches_iff]

/-- A pattern with one of each kind of part: the dash and the caret of its class would be read
as operators if they were not escaped. -/
def sample : Text := .ofString "a?\\*\x7b[!+--^],**.[x-],\x7d*"

theorem compile_preserves_meaning_sample : ∃ r, compile sample = .ok r ∧
    ∃ p x, (∀ q, Spells q sample ↔ q = p) ∧ Expression.read r.text = some x ∧
      (∀ w, w ∈ x.language ↔ p.Matches w) ∧
        ∀ name : Text, r.selects name = true ↔ p.Matches (Path.normalize name) := by
  obtain ⟨r, hr⟩ : ∃ r, compile sample = .ok r := ⟨_, by cbv⟩
  exact ⟨r, hr, compile_preserves_meaning hr⟩

end ArchiveIndex.Glob
