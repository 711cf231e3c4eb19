import Mathlib
import ArchiveIndex.Glob.Compiled

/-!
# The normal form of a path

A path may be spelled with separators to spare. What its spellings share is the row of segments,
which are the texts between separators that are not empty, and whether it is absolute, which is to
say that it starts with a separator.

**Theorem (`normalize_canonical`).** Two texts have the same normal form exactly if they spell the
same path. The normal form spells the path that it was made of and has no separator to spare, so
bringing it to normal form again leaves it as it is. A pattern therefore selects a path however it
is spelled.

Both passes of normalization keep the path, because a character in front of two spellings of one
path makes two spellings of one path (`SamePath.cons`). The first leaves no two separators in a row
and the second none at the end. A text like that is put together from its segments alone
(`intercalate_segments`), so there is one for each path.
-/

namespace ArchiveIndex.Path

/-! ## What a text spells -/

/-- The texts between separators, without the empty ones. -/
def segments (name : Text) : List (Text) :=
  (name.splitOn separator).filter fun segment => segment ≠ []

def IsAbsolute (name : Text) : Prop := name.head? = some separator

/-- Two texts spell the same path. -/
structure SamePath (a b : Text) : Prop where
  segments : segments a = segments b
  absolute : IsAbsolute a ↔ IsAbsolute b

/-- There is no separator to spare: no two in a row, and none at the end but in the root. -/
structure IsNormal (name : Text) : Prop where
  single : ¬ [separator, separator] <:+: name
  bare : name.getLast? = some separator → name = [separator]

variable {a b name rest : Text} {c d : CodePoint}

namespace SamePath

theorem refl (name : Text) : SamePath name name := ⟨rfl, Iff.rfl⟩

theorem symm (h : SamePath a b) : SamePath b a := ⟨h.segments.symm, h.absolute.symm⟩

theorem trans {c : Text} (hab : SamePath a b) (hbc : SamePath b c) : SamePath a c :=
  ⟨hab.segments.trans hbc.segments, hab.absolute.trans hbc.absolute⟩

end SamePath

@[simp] theorem segments_nil : segments [] = [] := rfl

@[simp] theorem not_isAbsolute_nil : ¬ IsAbsolute [] := nofun

@[simp] theorem isAbsolute_cons : IsAbsolute (c :: rest) ↔ c = separator := by
  simp [IsAbsolute]

theorem eq_cons_of_isAbsolute (h : IsAbsolute name) : ∃ rest, name = separator :: rest := by
  cases name with
  | nil => exact absurd h not_isAbsolute_nil
  | cons c rest => exact ⟨rest, by rw [isAbsolute_cons.1 h]⟩

/-- A separator in front adds no segment. -/
@[simp] theorem segments_separator (rest : Text) :
    segments (separator :: rest) = segments rest := by
  simp [segments, List.splitOn, List.splitOnP_cons_eq_if_modifyHead]

/-- Any other character in front belongs to the first segment. -/
theorem segments_cons (hc : c ≠ separator) (rest : Text) :
    ∃ first others, rest.splitOn separator = first :: others ∧
      segments (c :: rest) = (c :: first) :: others.filter fun segment => segment ≠ [] := by
  obtain ⟨first, others, hsplit⟩ := List.exists_cons_of_ne_nil (List.splitOn_ne_nil separator rest)
  refine ⟨first, others, hsplit, ?_⟩
  simp [segments, List.splitOn_cons_eq_if_modifyHead, hc, hsplit]

theorem segments_singleton (hc : c ≠ separator) : segments [c] = [[c]] := by
  simp [segments, List.splitOn_cons_eq_if_modifyHead, hc]

/-- A separator after it ends the segment. -/
theorem segments_cons_separator (hc : c ≠ separator) (rest : Text) :
    segments (c :: separator :: rest) = [c] :: segments rest := by
  simp [segments, List.splitOn_cons_eq_if_modifyHead, hc]

/-- Before another character it makes the first segment longer. -/
theorem segments_cons_cons (hc : c ≠ separator) (hd : d ≠ separator) (rest : Text) :
    segments (c :: d :: rest) = (segments (d :: rest)).modifyHead (c :: ·) := by
  obtain ⟨first, others, hsplit, hsegments⟩ := segments_cons hd rest
  simp [segments, List.splitOn_cons_eq_if_modifyHead, hc, hd, hsplit]

/-- Only the empty text spells what the empty text does. -/
theorem samePath_nil_iff : SamePath name [] ↔ name = [] := by
  constructor
  · intro h
    cases name with
    | nil => rfl
    | cons c rest =>
      have hc : c ≠ separator := fun hc => not_isAbsolute_nil (h.absolute.1 (isAbsolute_cons.2 hc))
      obtain ⟨first, others, -, hsegments⟩ := segments_cons hc rest
      exact absurd (hsegments.symm.trans h.segments) (List.cons_ne_nil _ _)
  · rintro rfl
    exact .refl []

/-- A character in front of two spellings of a path makes two spellings of a path. -/
theorem SamePath.cons (h : SamePath a b) (c : CodePoint) : SamePath (c :: a) (c :: b) := by
  refine ⟨?_, by simp⟩
  by_cases hc : c = separator
  · rw [hc, segments_separator, segments_separator, h.segments]
  · cases a with
    | nil => rw [samePath_nil_iff.1 h.symm]
    | cons d a =>
      cases b with
      | nil => exact absurd (samePath_nil_iff.1 h) (List.cons_ne_nil d a)
      | cons e b =>
        have hde : d = separator ↔ e = separator := by simpa using h.absolute
        by_cases hd : d = separator
        · have he : e = separator := hde.1 hd
          have hab := h.segments
          rw [hd, he, segments_separator, segments_separator] at hab
          rw [hd, he, segments_cons_separator hc, segments_cons_separator hc, hab]
        · have he : e ≠ separator := fun he => hd (hde.2 he)
          rw [segments_cons_cons hc hd, segments_cons_cons hc he, h.segments]

/-! ## The passes keep the path -/

theorem samePath_collapse (name : Text) : SamePath (collapse name) name := by
  fun_induction collapse name with
  | case1 => exact .refl []
  | case2 c rest h ih =>
    -- The separator that is left out stands before another one.
    refine ih.trans ⟨?_, ?_⟩
    · rw [h.1, segments_separator]
    · rw [isAbsolute_cons]
      exact ⟨fun _ => h.1, fun _ => h.2⟩
  | case3 c rest h ih => exact ih.cons c

/-- A separator after the first character, at the end, says nothing. -/
theorem samePath_concat (h : name ≠ []) : SamePath name (name ++ [separator]) := by
  induction name with
  | nil => exact absurd rfl h
  | cons c rest ih =>
    cases rest with
    | cons d rest => exact (ih (List.cons_ne_nil d rest)).cons c
    | nil =>
      refine ⟨?_, by simp⟩
      by_cases hc : c = separator
      · rw [hc]
        simp
      · simp [segments_singleton hc, segments_cons_separator hc]

theorem samePath_dropTrailing (name : Text) : SamePath (dropTrailing name) name := by
  unfold dropTrailing
  split
  · rename_i h
    obtain ⟨init, rfl⟩ := List.getLast?_eq_some_iff.1 h.2
    rw [List.dropLast_concat]
    refine samePath_concat ?_
    rintro rfl
    simp at h
  · exact .refl name

theorem samePath_normalize (name : Text) : SamePath (normalize name) name :=
  (samePath_dropTrailing _).trans (samePath_collapse name)

/-! ## The passes leave no separator to spare -/

theorem single_collapse (name : Text) : ¬ [separator, separator] <:+: collapse name := by
  fun_induction collapse name with
  | case1 => simp
  | case2 c rest h ih => exact ih
  | case3 c rest h ih =>
    rw [List.infix_cons_iff, List.cons_prefix_cons]
    rintro (⟨hc, hprefix⟩ | hinfix)
    · obtain ⟨later, hlater⟩ := hprefix
      have habsolute : IsAbsolute (collapse rest) := by rw [← hlater]; rfl
      exact h ⟨hc.symm, (samePath_collapse rest).absolute.1 habsolute⟩
    · exact ih hinfix

theorem isNormal_dropTrailing (h : ¬ [separator, separator] <:+: name) :
    IsNormal (dropTrailing name) := by
  unfold dropTrailing
  split
  · rename_i hlast
    obtain ⟨init, rfl⟩ := List.getLast?_eq_some_iff.1 hlast.2
    rw [List.dropLast_concat]
    refine ⟨fun hinit => h (hinit.trans (List.infix_append [] init [separator])), fun hend => ?_⟩
    -- One more separator at the end would stand before the one that was dropped.
    obtain ⟨before, rfl⟩ := List.getLast?_eq_some_iff.1 hend
    refine absurd ⟨before, [], ?_⟩ h
    simp
  · rename_i hlast
    refine ⟨h, fun hend => ?_⟩
    obtain ⟨init, rfl⟩ := List.getLast?_eq_some_iff.1 hend
    have hinit : init = [] := by
      by_contra hne
      exact hlast ⟨by simpa using List.length_pos_iff.2 hne, hend⟩
    rw [hinit]
    rfl

theorem isNormal_normalize (name : Text) : IsNormal (normalize name) :=
  isNormal_dropTrailing (single_collapse name)

/-! ## One normal text for each path -/

/-- Separators stand only between segments, one each. -/
structure IsTrim (name : Text) : Prop where
  start : ¬ IsAbsolute name
  single : ¬ [separator, separator] <:+: name
  bare : name.getLast? ≠ some separator

theorem IsTrim.ne_separator (h : IsTrim (c :: rest)) : c ≠ separator :=
  fun hc => h.start (isAbsolute_cons.2 hc)

/-- Without a character that does not end its segment, a trim text is trim. -/
theorem IsTrim.of_cons (h : IsTrim (c :: d :: rest)) (hd : d ≠ separator) : IsTrim (d :: rest) := by
  refine ⟨fun habsolute => hd (isAbsolute_cons.1 habsolute), fun hdouble => ?_, ?_⟩
  · exact h.single (hdouble.trans (List.suffix_cons c (d :: rest)).isInfix)
  · have hbare := h.bare
    rwa [List.getLast?_cons_cons] at hbare

/-- What stands after a separator in a trim text is not empty, and is trim. -/
theorem IsTrim.after_separator (h : IsTrim (c :: separator :: rest)) : rest ≠ [] ∧ IsTrim rest := by
  have hrest : rest ≠ [] := by
    rintro rfl
    exact h.bare rfl
  refine ⟨hrest, fun habsolute => ?_, fun hdouble => ?_, ?_⟩
  · obtain ⟨later, rfl⟩ := eq_cons_of_isAbsolute habsolute
    exact h.single ⟨[c], later, rfl⟩
  · exact h.single (hdouble.trans (List.suffix_append [c, separator] rest).isInfix)
  · have hbare := h.bare
    rwa [List.getLast?_cons_cons, List.getLast?_cons_of_ne_nil hrest] at hbare

/-- A text with separators only between its segments is put together from them. -/
theorem intercalate_segments : ∀ {name : Text}, IsTrim name →
    [separator].intercalate (segments name) = name
  | [], _ => rfl
  | [c], h => by
    rw [segments_singleton h.ne_separator, List.intercalate_singleton]
  | c :: d :: rest, h => by
    have hc : c ≠ separator := h.ne_separator
    by_cases hd : d = separator
    · -- The segment is a single character, and another segment has to follow.
      subst hd
      obtain ⟨hrest, htrim⟩ := h.after_separator
      have hsegments : segments rest ≠ [] := fun hnil =>
        hrest (samePath_nil_iff.1 ⟨hnil, iff_of_false htrim.start not_isAbsolute_nil⟩)
      rw [segments_cons_separator hc, List.intercalate_cons_of_ne_nil hsegments,
        intercalate_segments htrim]
      rfl
    · obtain ⟨first, others, -, hsegments⟩ := segments_cons hd rest
      have ih := intercalate_segments (h.of_cons hd)
      rw [segments_cons_cons hc hd]
      rw [hsegments] at ih ⊢
      rw [← ih]
      cases others.filter fun segment => segment ≠ [] with
      | nil => simp
      | cons second later => simp [List.intercalate_cons_cons]

theorem IsNormal.isTrim (h : IsNormal name) (hstart : ¬ IsAbsolute name) : IsTrim name :=
  ⟨hstart, h.single, fun hend => hstart (by rw [h.bare hend]; rfl)⟩

theorem IsNormal.isTrim_tail (h : IsNormal (separator :: rest)) : IsTrim rest := by
  refine ⟨fun habsolute => ?_, fun hdouble => ?_, fun hend => ?_⟩
  · obtain ⟨later, rfl⟩ := eq_cons_of_isAbsolute habsolute
    exact h.single ⟨[], later, rfl⟩
  · exact h.single (hdouble.trans (List.suffix_cons separator rest).isInfix)
  · obtain ⟨init, rfl⟩ := List.getLast?_eq_some_iff.1 hend
    have hroot := h.bare (List.getLast?_concat (l := separator :: init))
    simp at hroot

theorem eq_of_isTrim (ha : IsTrim a) (hb : IsTrim b) (h : segments a = segments b) : a = b := by
  rw [← intercalate_segments ha, ← intercalate_segments hb, h]

/-- Two normal texts that spell the same path are equal. -/
theorem eq_of_isNormal (ha : IsNormal a) (hb : IsNormal b) (h : SamePath a b) : a = b := by
  by_cases habsolute : IsAbsolute a
  · obtain ⟨a, rfl⟩ := eq_cons_of_isAbsolute habsolute
    obtain ⟨b, rfl⟩ := eq_cons_of_isAbsolute (h.absolute.1 habsolute)
    have hsegments := h.segments
    rw [segments_separator, segments_separator] at hsegments
    rw [eq_of_isTrim ha.isTrim_tail hb.isTrim_tail hsegments]
  · have habsolute' : ¬ IsAbsolute b := fun hb => habsolute (h.absolute.2 hb)
    exact eq_of_isTrim (ha.isTrim habsolute) (hb.isTrim habsolute') h.segments

/-- Two spellings of a path have the same normal form, and no others have. -/
theorem normalize_eq_iff : normalize a = normalize b ↔ SamePath a b := by
  constructor
  · intro h
    have hb : SamePath (normalize a) b := h ▸ samePath_normalize b
    exact (samePath_normalize a).symm.trans hb
  · intro h
    refine eq_of_isNormal (isNormal_normalize a) (isNormal_normalize b) ?_
    exact (samePath_normalize a).trans (h.trans (samePath_normalize b).symm)

theorem normalize_eq_nil_iff : normalize name = [] ↔ name = [] := by
  have hnil : normalize name = normalize [] ↔ SamePath name [] := normalize_eq_iff
  exact hnil.trans samePath_nil_iff

/-- **The normal form is canonical.**

* Two texts have the same normal form exactly if they have the same segments and both or neither
  start with a separator.
* The normal form is its own normal form. It has no two separators in a row and none at the end,
  unless it is the separator alone; it is empty only for the empty text; and it spells the path
  that it was made of.
* A pattern selects both or neither of two names that spell the same path. -/
theorem normalize_canonical :
    (∀ a b, normalize a = normalize b ↔
      segments a = segments b ∧ (IsAbsolute a ↔ IsAbsolute b)) ∧
    (∀ name, normalize (normalize name) = normalize name ∧
      ¬ [separator, separator] <:+: normalize name ∧
      ((normalize name).getLast? = some separator → normalize name = [separator]) ∧
      (normalize name = [] ↔ name = []) ∧
      segments (normalize name) = segments name ∧
      (IsAbsolute (normalize name) ↔ IsAbsolute name)) ∧
    ∀ pattern r, Glob.compile pattern = .ok r → ∀ a b : Text,
      SamePath a b → r.selects a = r.selects b := by
  refine ⟨fun a b => ?_, fun name => ?_, fun pattern r _ a b h => ?_⟩
  · exact normalize_eq_iff.trans ⟨fun h => ⟨h.segments, h.absolute⟩, fun h => ⟨h.1, h.2⟩⟩
  · have hpath := samePath_normalize name
    have hnormal := isNormal_normalize name
    exact ⟨normalize_eq_iff.2 hpath, hnormal.single, hnormal.bare, normalize_eq_nil_iff,
      hpath.segments, hpath.absolute⟩
  · unfold Glob.Regex.selects
    rw [normalize_eq_iff.2 h]

/-- A name with separators to spare everywhere, beside the root written with three. -/
theorem normalize_canonical_spare :
    normalize "//src///a.lean/" = normalize "/src/a.lean" ∧ normalize "///" = [separator] ∧
      ∃ r, Glob.compile "/src/*" = .ok r ∧
        r.selects "//src///a.lean/" = true ∧ r.selects "/src/a.lean" = true := by
  obtain ⟨hiff, hnormal, hselects⟩ := normalize_canonical
  have hsegments : segments "//src///a.lean/" = segments "/src/a.lean" := by decide
  have habsolute : IsAbsolute "//src///a.lean/" ↔ IsAbsolute "/src/a.lean" :=
    iff_of_true rfl rfl
  obtain ⟨r, hr, hselected⟩ : ∃ r, Glob.compile "/src/*" = .ok r ∧
      r.selects "/src/a.lean" = true := ⟨_, by cbv, by cbv⟩
  refine ⟨(hiff _ _).2 ⟨hsegments, habsolute⟩, ?_, r, hr, ?_, hselected⟩
  · exact (hnormal "///").2.2.1 (by decide)
  · rw [hselects "/src/*" r hr _ _ ⟨hsegments, habsolute⟩, hselected]

end ArchiveIndex.Path
