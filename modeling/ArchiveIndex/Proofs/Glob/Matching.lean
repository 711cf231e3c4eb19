import ArchiveIndex.Glob.Compiled

/-!
# Matching by marks

The matcher notes for every tail of a text whether the rest of an expression matches it, from
the end of the expression to its start. The invariant is that the notes tell the truth:
`Tells P text marks` says that `marks` has, for every tail of `text`, whether the tail has the
property `P`. Each term turns notes on `P` into notes on "a match of the term, and then `P`",
and at the start of the expression the first note is the answer.

**Theorem (`fullMatch_iff`).** The matcher accepts a text exactly if the expression matches it.
**Theorem (`ofPattern_matches_iff`).** The expression of a pattern matches what the pattern does.
-/

namespace ArchiveIndex.Glob

/-! ## Notes on the tails of a text -/

/-- For every tail of the text, the marks tell whether the tail has the property. -/
inductive Tells (P : Text → Prop) : Text → Marks → Prop
  | nil {b : Bool} : (b = true ↔ P []) → Tells P [] [b]
  | cons {c : CodePoint} {rest : Text} {b : Bool} {marks : Marks} :
      (b = true ↔ P (c :: rest)) → Tells P rest marks → Tells P (c :: rest) (b :: marks)

namespace Tells

variable {P Q : Text → Prop} {text : Text} {marks marks' : Marks}

theorem head (h : Tells P text marks) : marks.headD false = true ↔ P text := by
  cases h with
  | nil h => exact h
  | cons h _ => exact h

theorem tail {c : CodePoint} (h : Tells P (c :: text) marks) : Tells P text marks.tail := by
  cases h with
  | cons _ later => exact later

theorem congr (h : Tells P text marks) (hPQ : ∀ w, P w ↔ Q w) : Tells Q text marks := by
  induction h with
  | nil h => exact .nil (h.trans (hPQ _))
  | cons h _ ih => exact .cons (h.trans (hPQ _)) ih

theorem of (holds : Text → Bool) (text : Text) :
    Tells (fun w => holds w = true) text (Marks.of holds text) := by
  induction text with
  | nil => exact .nil Iff.rfl
  | cons c rest ih => exact .cons Iff.rfl ih

theorem or (h : Tells P text marks) (h' : Tells Q text marks') :
    Tells (fun w => P w ∨ Q w) text (List.zipWith Bool.or marks marks') := by
  induction h generalizing marks' with
  | nil h =>
    cases h' with
    | nil h' => exact .nil (by rw [Bool.or_eq_true, h, h'])
  | cons h _ ih =>
    cases h' with
    | cons h' later' => exact .cons (by rw [Bool.or_eq_true, h, h']) (ih later')

end Tells

/-! ## One thing before another -/

/-- A text that begins with a match, after which the rest has a property. -/
def Before (M P : Text → Prop) (w : Text) : Prop := ∃ u v, w = u ++ v ∧ M u ∧ P v

theorem before_one_nil (set : CharSet) (P : Text → Prop) :
    ¬ Before (Term.one set).Matches P [] := by
  rintro ⟨u, v, huv, ⟨x, rfl, -⟩, -⟩
  simp at huv

theorem before_one_cons (set : CharSet) (P : Text → Prop) (c : CodePoint) (rest : Text) :
    Before (Term.one set).Matches P (c :: rest) ↔ set.contains c = true ∧ P rest := by
  constructor
  · rintro ⟨u, v, huv, ⟨x, rfl, hx⟩, hv⟩
    obtain ⟨rfl, rfl⟩ : c = x ∧ rest = v := by simpa using huv
    exact ⟨hx, hv⟩
  · rintro ⟨hc, hrest⟩
    exact ⟨[c], rest, rfl, ⟨c, rfl, hc⟩, hrest⟩

theorem before_many_nil (set : CharSet) (P : Text → Prop) :
    Before (Term.many set).Matches P [] ↔ P [] := by
  constructor
  · rintro ⟨u, v, huv, -, hv⟩
    obtain ⟨rfl, rfl⟩ := List.append_eq_nil_iff.1 huv.symm
    exact hv
  · intro h
    exact ⟨[], [], rfl, fun x hx => by simp at hx, h⟩

/-- A run of characters is empty, or has a first character and goes on. -/
theorem before_many_cons (set : CharSet) (P : Text → Prop) (c : CodePoint) (rest : Text) :
    Before (Term.many set).Matches P (c :: rest) ↔
      P (c :: rest) ∨ set.contains c = true ∧ Before (Term.many set).Matches P rest := by
  constructor
  · rintro ⟨u, v, huv, hu, hv⟩
    cases u with
    | nil =>
      obtain rfl : c :: rest = v := huv
      exact .inl hv
    | cons x u =>
      obtain ⟨rfl, rfl⟩ : c = x ∧ rest = u ++ v := by simpa using huv
      refine .inr ⟨hu c List.mem_cons_self, u, v, rfl, fun y hy => ?_, hv⟩
      exact hu y (List.mem_cons_of_mem c hy)
  · rintro (h | ⟨hc, u, v, rfl, hu, hv⟩)
    · exact ⟨[], c :: rest, rfl, fun x hx => by simp at hx, h⟩
    · refine ⟨c :: u, v, rfl, fun x hx => ?_, hv⟩
      rcases List.mem_cons.1 hx with rfl | hx
      · exact hc
      · exact hu x hx

theorem before_nil {α : Type} (M : α → Text → Prop) (P : Text → Prop) (w : Text) :
    Before (SequenceMatches M []) P w ↔ P w := by
  constructor
  · rintro ⟨-, v, rfl, rfl, hv⟩
    exact hv
  · intro h
    exact ⟨[], w, rfl, rfl, h⟩

theorem before_cons {α : Type} (M : α → Text → Prop) (a : α) (rest : List α)
    (P : Text → Prop) (w : Text) :
    Before (SequenceMatches M (a :: rest)) P w ↔
      Before (M a) (Before (SequenceMatches M rest) P) w := by
  constructor
  · rintro ⟨-, v, rfl, ⟨u₁, u₂, rfl, ha, hrest⟩, hv⟩
    exact ⟨u₁, u₂ ++ v, List.append_assoc .., ha, u₂, v, rfl, hrest, hv⟩
  · rintro ⟨u₁, -, rfl, ha, u₂, v, rfl, hrest, hv⟩
    exact ⟨u₁ ++ u₂, v, (List.append_assoc ..).symm, ⟨u₁, u₂, rfl, ha, hrest⟩, hv⟩

theorem before_group {α : Type} (M : α → Text → Prop) (first : List α)
    (others : List (List α)) (P : Text → Prop) (w : Text) :
    Before ((Piece.group first others).Matches M) P w ↔
      Before (SequenceMatches M first) P w ∨
        ∃ branch ∈ others, Before (SequenceMatches M branch) P w := by
  constructor
  · rintro ⟨u, v, rfl, ⟨branch, hb, hu⟩, hv⟩
    rcases List.mem_cons.1 hb with rfl | hb
    · exact .inl ⟨u, v, rfl, hu, hv⟩
    · exact .inr ⟨branch, hb, u, v, rfl, hu, hv⟩
  · rintro (⟨u, v, rfl, hu, hv⟩ | ⟨branch, hb, u, v, rfl, hu, hv⟩)
    · exact ⟨u, v, rfl, ⟨first, List.mem_cons_self, hu⟩, hv⟩
    · exact ⟨u, v, rfl, ⟨branch, List.mem_cons_of_mem first hb, hu⟩, hv⟩

/-! ## Each pass tells the truth -/

theorem tells_markOne {P : Text → Prop} {text : Text} {marks : Marks} (set : CharSet)
    (h : Tells P text marks) :
    Tells (Before (Term.one set).Matches P) text (set.markOne text marks) := by
  induction text generalizing marks with
  | nil => exact .nil (by simpa using before_one_nil set P)
  | cons c rest ih =>
    refine .cons ?_ (ih h.tail)
    rw [before_one_cons, Bool.and_eq_true, h.tail.head]

theorem tells_markMany {P : Text → Prop} {text : Text} {marks : Marks} (set : CharSet)
    (h : Tells P text marks) :
    Tells (Before (Term.many set).Matches P) text (set.markMany text marks) := by
  induction text generalizing marks with
  | nil => exact .nil (by rw [before_many_nil, h.head])
  | cons c rest ih =>
    refine .cons ?_ (ih h.tail)
    rw [before_many_cons, Bool.or_eq_true, Bool.and_eq_true, h.head, (ih h.tail).head]

theorem tells_term {P : Text → Prop} {text : Text} {marks : Marks} (t : Term)
    (h : Tells P text marks) : Tells (Before t.Matches P) text (t.mark text marks) := by
  cases t with
  | one set => exact tells_markOne set h
  | many set => exact tells_markMany set h

/-- Going back through a sequence tells the truth if each step does. -/
theorem tells_markSequence {α : Type} {M : α → Text → Prop} {mark : α → Marks → Marks}
    {text : Text}
    (hmark : ∀ a P marks, Tells P text marks → Tells (Before (M a) P) text (mark a marks))
    (items : List α) {P : Text → Prop} {marks : Marks} (h : Tells P text marks) :
    Tells (Before (SequenceMatches M items) P) text (markSequence mark items marks) := by
  induction items with
  | nil => exact h.congr fun w => (before_nil M P w).symm
  | cons a rest ih => exact (hmark a _ _ ih).congr fun w => (before_cons M a rest P w).symm

theorem tells_foldl_or {text : Text} {α : Type} (R : α → Text → Prop)
    (f : α → Marks) (hf : ∀ a, Tells (R a) text (f a)) (others : List α)
    {Q : Text → Prop} {marks : Marks} (h : Tells Q text marks) :
    Tells (fun w => Q w ∨ ∃ a ∈ others, R a w) text
      ((others.map f).foldl (List.zipWith Bool.or) marks) := by
  induction others generalizing Q marks with
  | nil => exact h.congr fun w => by simp
  | cons a others ih => exact (ih (h.or (hf a))).congr fun w => by simp [or_assoc]

theorem tells_piece {P : Text → Prop} {text : Text} {marks : Marks} (p : Piece Term)
    (h : Tells P text marks) :
    Tells (Before (p.Matches Term.Matches) P) text (p.mark text marks) := by
  cases p with
  | atom t => exact tells_term t h
  | group first others =>
    have hbranch : ∀ branch : List Term,
        Tells (Before (SequenceMatches Term.Matches branch) P) text
          (markSequence (Term.mark text) branch marks) := fun branch =>
      tells_markSequence (fun t _ _ h => tells_term t h) branch h
    exact (tells_foldl_or _ _ hbranch others (hbranch first)).congr fun w =>
      (before_group Term.Matches first others P w).symm

/-- **The matcher decides the expression.** -/
theorem fullMatch_iff (r : Regex) (text : Text) :
    r.fullMatch text = true ↔ r.Matches text := by
  have htells := tells_markSequence (fun p _ _ h => tells_piece p h) r
    (Tells.of List.isEmpty text)
  rw [Regex.fullMatch, htells.head]
  constructor
  · rintro ⟨u, v, rfl, hu, hv⟩
    rw [List.isEmpty_iff.1 hv, List.append_nil]
    exact hu
  · intro h
    exact ⟨text, [], (List.append_nil text).symm, h, rfl⟩

/-! ## The expression of a pattern -/

theorem sequenceMatches_map {α β : Type} {M : α → Text → Prop} {N : β → Text → Prop}
    {f : α → β} (h : ∀ a w, N (f a) w ↔ M a w) (items : List α) (w : Text) :
    SequenceMatches N (items.map f) w ↔ SequenceMatches M items w := by
  induction items generalizing w with
  | nil => exact Iff.rfl
  | cons a rest ih => simp [h, ih]

theorem piece_matches_map {α β : Type} {M : α → Text → Prop} {N : β → Text → Prop}
    {f : α → β} (h : ∀ a w, N (f a) w ↔ M a w) (p : Piece α) (w : Text) :
    (p.map f).Matches N w ↔ p.Matches M w := by
  cases p with
  | atom a => exact h a w
  | group first others =>
    constructor
    · rintro ⟨branch, hb, hw⟩
      obtain ⟨source, hs, rfl⟩ := List.mem_map.1 (show branch ∈ (first :: others).map _ from hb)
      exact ⟨source, hs, (sequenceMatches_map h source w).1 hw⟩
    · rintro ⟨branch, hb, hw⟩
      refine ⟨branch.map f, ?_, (sequenceMatches_map h branch w).2 hw⟩
      exact List.mem_map_of_mem (l := first :: others) hb

theorem contains_inSegment (x : CodePoint) :
    CharSet.inSegment.contains x = true ↔ x ≠ Path.separator := by
  simp [CharSet.inSegment, CharSet.contains, ClassItem.contains]

/-- The term of an atom matches what the atom does. -/
theorem ofAtom_matches_iff (a : Atom) (w : Text) :
    (Term.ofAtom a).Matches w ↔ a.Matches w := by
  cases a with
  | literal c => simp [Term.ofAtom, Term.Matches, Atom.Matches, CharSet.contains]
  | anyChar => simp [Term.ofAtom, Term.Matches, Atom.Matches, contains_inSegment]
  | run =>
    simp only [Term.ofAtom, Term.Matches, Atom.Matches, contains_inSegment]
    exact ⟨fun h hmem => h _ hmem rfl, fun h x hx hsep => h (hsep ▸ hx)⟩
  | pathRun => simp [Term.ofAtom, Term.Matches, Atom.Matches, CharSet.contains]
  | oneOf negated items =>
    cases negated with
    | false => simp [Term.ofAtom, Term.Matches, Atom.Matches, CharSet.contains]
    | true =>
      simp [Term.ofAtom, Term.Matches, Atom.Matches, CharSet.contains, ClassItem.contains]

/-- **The expression of a pattern matches what the pattern does.** -/
theorem ofPattern_matches_iff (p : Pattern) (w : Text) :
    (Regex.ofPattern p).Matches w ↔ p.Matches w :=
  sequenceMatches_map (piece_matches_map ofAtom_matches_iff) p w

end ArchiveIndex.Glob
