import ArchiveIndex.Proofs.Glob.Compilation

/-!
# Faults in patterns

A text that is no pattern is rejected with a reason and a place.

**Theorem (`rejection_located`).** If the reason is that something is missing, the text ended too
early and can be written on to a pattern. Any other fault is there to stay: however the text is
written on, it is rejected for the same reason at the same place. The place is never too far to the
right: what stands before it can be written on to a pattern. And it is where the fault lies, at the
bracket, the brace, the dash, the separator or the backslash that is at fault.

Each reader is shown to stop rightly (`Stops`) from how the readers that it calls stop. Faults in a
class have a grammar of their own (`FaultyItems`), since the reader of a class looks ahead. That the
text before a fault can be written on needs no look at the readers any more. The reader may stop in
this text as well, but not for good: a fault that stays would have been reported in its place.
-/

namespace ArchiveIndex.Glob

/-! ## What is taken from the front of a text -/

theorem exists_front_of_spellsItems {items : List ClassItem} {text rest : Text}
    (h : SpellsItems items text rest) :
    ∃ front, front ≠ [] ∧ text = front ++ rest ∧
      ∀ later, SpellsItems items (front ++ later) later := by
  induction h with
  | close => exact ⟨[']'], by simp, rfl, fun _ => .close⟩
  | dash => exact ⟨['-', ']'], by simp, rfl, fun _ => .dash⟩
  | @single c _ _ _ hc _ ih =>
    obtain ⟨front, -, rfl, hlater⟩ := ih
    exact ⟨c :: front, by simp, rfl, fun later => .single hc (hlater later)⟩
  | @range low high _ _ _ hlow hhigh hle _ ih =>
    obtain ⟨front, -, rfl, hlater⟩ := ih
    exact ⟨low :: '-' :: high :: front, by simp, rfl,
      fun later => .range hlow hhigh hle (hlater later)⟩

theorem exists_front_of_spellsMembers {members : List ClassItem} {text rest : Text}
    (h : SpellsMembers members text rest) :
    ∃ front, front ≠ [] ∧ text = front ++ rest ∧
      ∀ later, SpellsMembers members (front ++ later) later := by
  cases h with
  | items h =>
    obtain ⟨front, hne, rfl, hlater⟩ := exists_front_of_spellsItems h
    exact ⟨front, hne, rfl, fun later => .items (hlater later)⟩
  | dash h =>
    obtain ⟨front, -, rfl, hlater⟩ := exists_front_of_spellsItems h
    exact ⟨'-' :: front, by simp, rfl, fun later => .dash (hlater later)⟩

theorem exists_front_of_spellsClass {negated : Bool} {members : List ClassItem}
    {text rest : Text} (h : SpellsClass negated members text rest) :
    ∃ front, text = front ++ rest ∧
      ∀ later, SpellsClass negated members (front ++ later) later := by
  cases h with
  | listed hmark hmembers h =>
    obtain ⟨front, hne, rfl, hlater⟩ := exists_front_of_spellsMembers h
    refine ⟨front, rfl, fun later => .listed ?_ hmembers (hlater later)⟩
    rwa [List.head?_append_of_ne_nil _ hne] at hmark ⊢
  | negated hmembers h =>
    obtain ⟨front, -, rfl, hlater⟩ := exists_front_of_spellsMembers h
    exact ⟨'!' :: front, rfl, fun later => .negated hmembers (hlater later)⟩

/-- An atom is the same before any other text, but for a star before another. -/
theorem exists_front_of_spellsAtom {a : Atom} {text rest : Text} (h : SpellsAtom a text rest) :
    ∃ front, front ≠ [] ∧ text = front ++ rest ∧
      ∀ later, (later.head? = some ('*' : CodePoint) → rest.head? = some ('*' : CodePoint)) →
        SpellsAtom a (front ++ later) later := by
  cases h with
  | @escaped c _ => exact ⟨['\\', c], by simp, rfl, fun _ _ => .escaped⟩
  | oneOf hclass =>
    obtain ⟨front, rfl, hlater⟩ := exists_front_of_spellsClass hclass
    exact ⟨'[' :: front, by simp, rfl, fun later _ => .oneOf (hlater later)⟩
  | pathRun => exact ⟨['*', '*'], by simp, rfl, fun _ _ => .pathRun⟩
  | run hrest => exact ⟨['*'], by simp, rfl, fun _ hstar => .run fun h => hrest (hstar h)⟩
  | anyChar => exact ⟨['?'], by simp, rfl, fun _ _ => .anyChar⟩
  | @plain c _ hc => exact ⟨[c], by simp, rfl, fun _ _ => .plain hc⟩

theorem suffix_of_spellsAtom {a : Atom} {text rest : Text} (h : SpellsAtom a text rest) :
    rest <:+ text := by
  obtain ⟨front, -, rfl, -⟩ := exists_front_of_spellsAtom h
  exact List.suffix_append front rest

theorem spellsAtom_append {a : Atom} {text rest more : Text} (h : SpellsAtom a text rest)
    (hmore : rest = [] → more.head? ≠ some ('*' : CodePoint)) :
    SpellsAtom a (text ++ more) (rest ++ more) := by
  obtain ⟨front, -, rfl, hlater⟩ := exists_front_of_spellsAtom h
  rw [List.append_assoc]
  refine hlater _ fun hstar => ?_
  by_cases hrest : rest = []
  · rw [hrest] at hstar
    exact absurd hstar (hmore hrest)
  · rwa [List.head?_append_of_ne_nil _ hrest] at hstar

theorem ne_nil_of_spellsGroup {first : List Atom} {others : List (List Atom)}
    {text rest : Text} (h : SpellsGroup first others text rest) : text ≠ [] := by
  cases h <;> simp

theorem suffix_of_spellsGroup {first : List Atom} {others : List (List Atom)}
    {text rest : Text} (h : SpellsGroup first others text rest) : rest <:+ text := by
  induction h with
  | close => exact List.suffix_cons _ _
  | comma _ ih => exact ih.trans (List.suffix_cons _ _)
  | atom _ hatom _ ih => exact ih.trans (suffix_of_spellsAtom hatom)

theorem spellsGroup_append {first : List Atom} {others : List (List Atom)}
    {text rest : Text} (h : SpellsGroup first others text rest) (more : Text) :
    SpellsGroup first others (text ++ more) (rest ++ more) := by
  induction h with
  | close => exact .close
  | comma _ ih => exact .comma ih
  | atom hc hatom hgroup ih =>
    exact .atom hc (spellsAtom_append hatom fun h => absurd h (ne_nil_of_spellsGroup hgroup)) ih

/-! ## Stopping -/

/-- Whether a fault is that the text ends too early. -/
def Reason.isUnfinished : Reason → Bool
  | noCharacterToEscape | missingBracket | missingBrace => true
  | emptyClass | separatorInClass | invalidRange | nestedGroup => false

/-- The character that a fault lies at. A missing brace is missed at the end of the text. -/
def Reason.culprit : Reason → Option CodePoint
  | noCharacterToEscape => some '\\'
  | missingBracket | emptyClass => some '['
  | separatorInClass => some Path.separator
  | invalidRange => some '-'
  | nestedGroup => some '\x7b'
  | missingBrace => none

/-- The same fault in a text that goes on. -/
def Stop.writeOn (stop : Stop) (more : Text) : Stop := ⟨stop.reason, stop.rest ++ more⟩

/-- What it is for a reader to stop rightly in a text. `Accepts` are the texts that it reads to
their end, and `Fails` says where it stops in others. -/
structure Stops (Accepts : Text → Prop) (Fails : Text → Stop → Prop)
    (text : Text) (stop : Stop) : Prop where
  place : stop.rest <:+ text
  culprit : stop.rest.head? = stop.reason.culprit
  last : stop.reason = .noCharacterToEscape → stop.rest.length = 1
  /-- The text can be completed, and not by a star, which a star before it would take. -/
  mend : stop.reason.isUnfinished = true →
    ∃ more, more.head? ≠ some ('*' : CodePoint) ∧ Accepts (text ++ more)
  final : stop.reason.isUnfinished = false → ∀ more, Fails (text ++ more) (stop.writeOn more)

namespace Stops

variable {Accepts : Text → Prop} {Fails : Text → Stop → Prop} {text : Text}
  {stop : Stop}

theorem of_unfinished (hreason : stop.reason.isUnfinished = true) (place : stop.rest <:+ text)
    (culprit : stop.rest.head? = stop.reason.culprit)
    (last : stop.reason = .noCharacterToEscape → stop.rest.length = 1)
    (mend : ∃ more, more.head? ≠ some ('*' : CodePoint) ∧ Accepts (text ++ more)) :
    Stops Accepts Fails text stop where
  place := place
  culprit := culprit
  last := last
  mend _ := mend
  final hfinal := by simp [hreason] at hfinal

theorem of_final (hreason : stop.reason.isUnfinished = false) (place : stop.rest <:+ text)
    (culprit : stop.rest.head? = stop.reason.culprit)
    (final : ∀ more, Fails (text ++ more) (stop.writeOn more)) :
    Stops Accepts Fails text stop where
  place := place
  culprit := culprit
  last hlast := by simp [hlast, Reason.isUnfinished] at hreason
  mend hunfinished := by simp [hreason] at hunfinished
  final _ := final

end Stops

/-- A fault that stays lies at a character. -/
theorem rest_ne_nil {stop : Stop} (hculprit : stop.rest.head? = stop.reason.culprit)
    (hreason : stop.reason.isUnfinished = false) : stop.rest ≠ [] := by
  intro hnil
  rw [hnil] at hculprit
  cases hr : stop.reason <;> simp [hr, Reason.culprit, Reason.isUnfinished] at hculprit hreason

/-- A reader that calls another stops where that one does. -/
theorem Stops.lift {Accepts Accepts' : Text → Prop} {Fails Fails' : Text → Stop → Prop}
    {inner text : Text} {stop : Stop} (h : Stops Accepts Fails inner stop)
    (hinner : inner <:+ text)
    (haccepts : ∀ more, more.head? ≠ some ('*' : CodePoint) → Accepts (inner ++ more) →
      ∃ more', more'.head? ≠ some ('*' : CodePoint) ∧ Accepts' (text ++ more'))
    (hfails : inner ≠ [] → ∀ more later, Fails (inner ++ more) later →
      Fails' (text ++ more) later) : Stops Accepts' Fails' text stop where
  place := h.place.trans hinner
  culprit := h.culprit
  last := h.last
  mend hreason := by
    obtain ⟨more, hstar, hmore⟩ := h.mend hreason
    exact haccepts more hstar hmore
  final hreason more := by
    have hne : inner ≠ [] := by
      intro hnil
      rw [hnil] at h
      exact rest_ne_nil h.culprit hreason (List.suffix_nil.1 h.place)
    exact hfails hne more _ (h.final hreason more)

/-! ## Faults in a class -/

/-- A fault among the members of a class that no continuation undoes, from the text of the members
on. A dash is one where no character of its own stands before it. -/
inductive FaultyItems : Text → Stop → Prop
  | separator {text : Text} :
      FaultyItems (Path.separator :: text) ⟨.separatorInClass, Path.separator :: text⟩
  | dash {c : CodePoint} {text : Text} :
      c ≠ ']' → FaultyItems ('-' :: c :: text) ⟨.invalidRange, '-' :: c :: text⟩
  | high {low : CodePoint} {text : Text} :
      low ∉ ([']', Path.separator, '-'] : Text) →
      FaultyItems (low :: '-' :: Path.separator :: text)
        ⟨.separatorInClass, Path.separator :: text⟩
  | descending {low high : CodePoint} {text : Text} :
      low ∉ ([']', Path.separator, '-'] : Text) → high ∉ ([']', Path.separator] : Text) →
      high < low → FaultyItems (low :: '-' :: high :: text) ⟨.invalidRange, '-' :: high :: text⟩
  | single {c : CodePoint} {text : Text} {stop : Stop} :
      c ∉ ([']', Path.separator, '-'] : Text) → text.head? ≠ some ('-' : CodePoint) →
      FaultyItems text stop → FaultyItems (c :: text) stop
  | range {low high : CodePoint} {text : Text} {stop : Stop} :
      low ∉ ([']', Path.separator, '-'] : Text) → high ∉ ([']', Path.separator] : Text) →
      low ≤ high → FaultyItems text stop → FaultyItems (low :: '-' :: high :: text) stop

namespace FaultyItems

variable {text : Text} {stop : Stop}

theorem ne_nil (h : FaultyItems text stop) : text ≠ [] := by
  cases h <;> simp

theorem suffix (h : FaultyItems text stop) : stop.rest <:+ text := by
  induction h with
  | separator | dash => exact List.suffix_rfl
  | high => exact ⟨[_, '-'], rfl⟩
  | descending => exact ⟨[_], rfl⟩
  | single _ _ _ ih => exact ih.trans (List.suffix_cons _ _)
  | range _ _ _ _ ih => exact ih.trans ⟨[_, '-', _], rfl⟩

theorem reason (h : FaultyItems text stop) :
    stop.rest.head? = stop.reason.culprit ∧ stop.reason.isUnfinished = false := by
  induction h with
  | separator | dash | high | descending => exact ⟨rfl, rfl⟩
  | single _ _ _ ih | range _ _ _ _ ih => exact ih

theorem append (h : FaultyItems text stop) (more : Text) :
    FaultyItems (text ++ more) (stop.writeOn more) := by
  induction h with
  | separator => exact .separator
  | dash hc => exact .dash hc
  | high hlow => exact .high hlow
  | descending hlow hhigh hlt => exact .descending hlow hhigh hlt
  | @single c text _ hc hhead h ih =>
    have hmore : (text ++ more).head? ≠ some ('-' : CodePoint) := by
      rwa [List.head?_append_of_ne_nil _ h.ne_nil]
    exact .single hc hmore ih
  | range hlow hhigh hle _ ih => exact .range hlow hhigh hle ih

/-- A fault after a character on its own: a dash there has the closing bracket after it, and is
none. -/
theorem cons {c : CodePoint} (hc : c ∉ ([']', Path.separator, '-'] : Text))
    (hdash : ∀ high (left : Text), text = ('-' : CodePoint) :: high :: left → high = ']')
    (h : FaultyItems text stop) : FaultyItems (c :: text) stop := by
  refine .single hc (fun hhead => ?_) h
  cases h with
  | separator => simp [Path.separator] at hhead
  | dash hne => exact hne (hdash _ _ rfl)
  | high hlow | descending hlow _ _ | range hlow _ _ _ => simp_all
  | single hc _ _ => simp_all

/-- The reader stops at such a fault. -/
theorem readItems_eq (h : FaultyItems text stop) (opening : Text) :
    readItems opening text = .error stop := by
  induction h with
  | separator =>
    rw [readItems.eq_def]
    simp [Path.separator]
  | dash hc =>
    rw [readItems.eq_def]
    simp [Path.separator, hc]
  | high hlow =>
    rw [readItems.eq_def]
    simp_all [Path.separator]
  | descending hlow hhigh hlt =>
    rw [readItems.eq_def]
    simp_all
  | single hc hhead _ ih =>
    rw [readItems_cons opening hc, ih]
    · rfl
    · rintro high left rfl
      simp at hhead
  | range hlow hhigh hle _ ih =>
    rw [readItems_range opening _ hlow hhigh hle, ih]
    rfl

end FaultyItems

theorem consItem_eq_error_iff {item : ClassItem}
    {read : Except Stop (List ClassItem × Text)} {stop : Stop} :
    consItem item read = .error stop ↔ read = .error stop := by
  cases read <;> simp [consItem, Except.map]

/-- Where the members of a class end without a fault, a bracket closes the class. -/
def Closable (text : Text) : Prop :=
  ∃ items, SpellsItems items (text ++ ([']'] : Text)) [] ∧ (text ≠ [] → items ≠ [])

theorem stop_cons {opening text : Text} {stop : Stop} {c : CodePoint}
    (hc : c ∉ ([']', Path.separator, '-'] : Text))
    (hdash : ∀ high (left : Text), text = ('-' : CodePoint) :: high :: left → high = ']')
    (h : stop = ⟨.missingBracket, opening⟩ ∧ Closable text ∨ FaultyItems text stop) :
    stop = ⟨.missingBracket, opening⟩ ∧ Closable (c :: text) ∨ FaultyItems (c :: text) stop := by
  rcases h with ⟨hstop, items, hitems, -⟩ | hfault
  · exact .inl ⟨hstop, .single c :: items, .single hc hitems, by simp⟩
  · exact .inr (hfault.cons hc hdash)

/-- The reader of members stops at the end of the text, or at a fault that stays. -/
theorem stop_of_readItems {opening text : Text} {stop : Stop}
    (h : readItems opening text = .error stop) :
    stop = ⟨.missingBracket, opening⟩ ∧ Closable text ∨ FaultyItems text stop := by
  fun_induction readItems opening text with
  | case1 =>
    obtain rfl : _ = stop := by simpa using h
    exact .inl ⟨rfl, [], .close, by simp⟩
  | case2 => simp at h
  | case3 =>
    obtain rfl : _ = stop := by simpa using h
    exact .inr .separator
  | case4 rest hrest _ _ ih =>
    have h := consItem_eq_error_iff.1 h
    rcases hrest with rfl | hrest
    · obtain rfl : _ = stop := by simpa [readItems] using h
      exact .inl ⟨rfl, [.single '-'], .dash, by simp⟩
    · obtain ⟨left, rfl⟩ := List.head?_eq_some_iff.1 hrest
      simp [readItems_bracket] at h
  | case5 rest hrest =>
    obtain rfl : _ = stop := by simpa using h
    rcases rest with _ | ⟨c, rest⟩
    · simp at hrest
    · exact .inr (.dash (by simpa using hrest))
  | case6 c h₁ h₂ h₃ ih =>
    exact stop_cons (by simp [h₁, h₂, h₃]) (by simp) (ih (consItem_eq_error_iff.1 h))
  | case7 c h₁ h₂ h₃ next ih =>
    exact stop_cons (by simp [h₁, h₂, h₃]) (by simp) (ih (consItem_eq_error_iff.1 h))
  | case8 low h₁ h₂ h₃ dash left hdash =>
    obtain ⟨rfl, -⟩ := hdash
    obtain rfl : _ = stop := by simpa using h
    exact .inr (.high (by simp [h₁, h₂, h₃]))
  | case9 low h₁ h₂ h₃ dash high left hdash h₄ hlt =>
    obtain ⟨rfl, hhigh⟩ := hdash
    obtain rfl : _ = stop := by simpa using h
    exact .inr (.descending (by simp [h₁, h₂, h₃]) (by simp [hhigh, h₄]) hlt)
  | case10 low h₁ h₂ h₃ dash high left hdash h₄ hlt ih =>
    obtain ⟨rfl, hhigh⟩ := hdash
    have hlow : low ∉ ([']', Path.separator, '-'] : Text) := by simp [h₁, h₂, h₃]
    have hhigh : high ∉ ([']', Path.separator] : Text) := by simp [hhigh, h₄]
    have hle : low ≤ high := Fin.not_lt.1 hlt
    rcases ih (consItem_eq_error_iff.1 h) with ⟨hstop, items, hitems, -⟩ | hfault
    · exact .inl ⟨hstop, _, .range hlow hhigh hle hitems, by simp⟩
    · exact .inr (.range hlow hhigh hle hfault)
  | case11 c h₁ h₂ h₃ dash high left hplain ih =>
    refine stop_cons (by simp [h₁, h₂, h₃]) ?_ (ih (consItem_eq_error_iff.1 h))
    intro high' left' heq
    obtain ⟨hdash, htail⟩ := List.cons.inj heq
    obtain ⟨rfl, -⟩ := List.cons.inj htail
    simpa [hdash] using hplain

/-! ## The readers -/

theorem readNegation_append {text : Text} (h : text ≠ []) (more : Text) :
    readNegation (text ++ more) = ((readNegation text).1, (readNegation text).2 ++ more) := by
  obtain ⟨c, text, rfl⟩ := List.exists_cons_of_ne_nil h
  by_cases hc : c = '!'
  · rw [hc]
    rfl
  · simp [readNegation, hc]

theorem readLeadingDash_append {text : Text} (h : text ≠ []) (more : Text) :
    readLeadingDash (text ++ more) =
      ((readLeadingDash text).1, (readLeadingDash text).2 ++ more) := by
  obtain ⟨c, text, rfl⟩ := List.exists_cons_of_ne_nil h
  by_cases hc : c = '-'
  · rw [hc]
    rfl
  · simp [readLeadingDash, hc]

/-- What the reader of a class hands to the reader of members. -/
def classBody (text : Text) : Text := (readLeadingDash (readNegation text).2).2

theorem classBody_suffix (text : Text) : classBody text <:+ text := by
  have hdash : ∀ s, (readLeadingDash s).2 <:+ s := by
    intro s
    unfold readLeadingDash
    split
    · exact List.tail_suffix s
    · exact List.suffix_rfl
  have hmark : ∀ s, (readNegation s).2 <:+ s := by
    intro s
    unfold readNegation
    split
    · exact List.tail_suffix s
    · exact List.suffix_rfl
  exact (hdash _).trans (hmark text)

/-- Once the members have begun, the text after them changes nothing about what stands before. -/
theorem readLeadingDash_readNegation_append {text : Text} (h : classBody text ≠ [])
    (more : Text) :
    readLeadingDash (readNegation (text ++ more)).2 =
      ((readLeadingDash (readNegation text).2).1, classBody text ++ more) := by
  have hmark : (readNegation text).2 ≠ [] := by
    intro hnil
    rw [classBody, hnil] at h
    exact h rfl
  have htext : text ≠ [] := by
    intro hnil
    rw [hnil] at hmark
    exact hmark rfl
  rw [readNegation_append htext, readLeadingDash_append hmark]
  rfl

theorem classBody_append {text : Text} (h : classBody text ≠ []) (more : Text) :
    classBody (text ++ more) = classBody text ++ more := by
  rw [classBody, readLeadingDash_readNegation_append h]

theorem readClass_eq_error_iff {c : CodePoint} {text : Text} {stop : Stop} :
    readClass c text = .error stop ↔
      readItems (c :: text) (classBody text) = .error stop ∨
        ∃ rest, readItems (c :: text) (classBody text) = .ok ([], rest) ∧
          (readLeadingDash (readNegation text).2).1 = [] ∧ stop = ⟨.emptyClass, c :: text⟩ := by
  simp only [readClass, classBody]
  split
  · next hread => simp [hread]
  · next items rest hread =>
    split_ifs with hempty
    · obtain ⟨hleading, rfl⟩ := List.append_eq_nil_iff.1 hempty
      simp [hread, hleading, eq_comm]
    · simp only [hread, reduceCtorEq, false_or, false_iff]
      rintro ⟨rest', hitems, hleading, _⟩
      obtain ⟨rfl, -⟩ : items = [] ∧ rest = rest' := by simpa using hitems
      exact hempty (by rw [hleading]; rfl)

/-- Members that could end here can be completed, by the bracket alone if there is something before
it and else by a member and the bracket. -/
theorem exists_completion_of_members {text : Text} (h : Closable (readLeadingDash text).2) :
    ∃ more, more.head? ≠ some ('*' : CodePoint) ∧ more.head? ≠ some ('!' : CodePoint) ∧
      ∃ members, members ≠ [] ∧ SpellsMembers members (text ++ more) [] := by
  by_cases htext : text = []
  · refine ⟨['a', ']'], by simp, by simp, [.single 'a'], by simp, ?_⟩
    rw [htext]
    exact .items (.single (by simp [Path.separator]) .close)
  · refine ⟨[']'], by simp, by simp, ?_⟩
    unfold readLeadingDash at h
    split at h
    · next hdash =>
      obtain ⟨later, rfl⟩ := List.head?_eq_some_iff.1 hdash
      obtain ⟨items, hitems, -⟩ := h
      exact ⟨_, by simp, .dash hitems⟩
    · obtain ⟨items, hitems, hne⟩ := h
      exact ⟨items, hne htext, .items hitems⟩

theorem exists_completion_of_class {text : Text} (h : Closable (classBody text)) :
    ∃ more, more.head? ≠ some ('*' : CodePoint) ∧
      ∃ negated members, SpellsClass negated members (text ++ more) [] := by
  obtain ⟨more, hstar, hmark, members, hne, hmembers⟩ := exists_completion_of_members h
  unfold readNegation at hmembers
  split at hmembers
  · next hnegated =>
    obtain ⟨later, rfl⟩ := List.head?_eq_some_iff.1 hnegated
    exact ⟨more, hstar, true, members, .negated hne hmembers⟩
  · next hplain =>
    refine ⟨more, hstar, false, members, .listed (fun hhead => ?_) hne hmembers⟩
    obtain ⟨left, hleft⟩ := List.head?_eq_some_iff.1 hhead
    rcases List.append_eq_cons_iff.1 hleft with ⟨-, hmore⟩ | ⟨later, htext, -⟩
    · rw [hmore] at hmark
      exact hmark rfl
    · rw [htext] at hplain
      exact hplain rfl

/-! ## Atoms, groups and patterns -/

def AtomAccepts (text : Text) : Prop := ∃ a, SpellsAtom a text []

def AtomFails (text : Text) (stop : Stop) : Prop :=
  ∃ c rest, text = c :: rest ∧ readAtom c rest = .error stop

theorem atomFails_cons_iff {c : CodePoint} {text : Text} {stop : Stop} :
    AtomFails (c :: text) stop ↔ readAtom c text = .error stop := by
  constructor
  · rintro ⟨c', rest, htext, hfails⟩
    obtain ⟨rfl, rfl⟩ := List.cons.inj htext
    exact hfails
  · intro hfails
    exact ⟨c, text, rfl, hfails⟩

def GroupAccepts (text : Text) : Prop := ∃ first others, SpellsGroup first others text []

def GroupFails (text : Text) (stop : Stop) : Prop := readGroup text = .error stop

def PiecesAccept (text : Text) : Prop := ∃ p, Spells p text

def PiecesFail (text : Text) (stop : Stop) : Prop := readPieces text = .error stop

theorem atomFails_bracket {text : Text} {stop : Stop} (h : readClass '[' text = .error stop) :
    AtomFails ('[' :: text) stop := by
  rw [atomFails_cons_iff]
  unfold readAtom
  rw [if_neg (by decide), if_pos rfl, h]

theorem stops_of_readClass {text : Text} {stop : Stop}
    (h : readClass '[' text = .error stop) : Stops AtomAccepts AtomFails ('[' :: text) stop := by
  rcases readClass_eq_error_iff.1 h with hitems | ⟨rest, hitems, hleading, rfl⟩
  · rcases stop_of_readItems hitems with ⟨rfl, hclosable⟩ | hfault
    · obtain ⟨more, hstar, negated, members, hclass⟩ := exists_completion_of_class hclosable
      exact .of_unfinished rfl List.suffix_rfl rfl (by simp) ⟨more, hstar, _, .oneOf hclass⟩
    · obtain ⟨hculprit, hreason⟩ := hfault.reason
      have hfinal : ∀ more, readClass '[' (text ++ more) = .error (stop.writeOn more) := by
        intro more
        refine readClass_eq_error_iff.2 (.inl ?_)
        rw [classBody_append hfault.ne_nil]
        exact (hfault.append more).readItems_eq _
      have hplace : stop.rest <:+ '[' :: text :=
        (hfault.suffix.trans (classBody_suffix text)).trans (List.suffix_cons _ _)
      exact .of_final hreason hplace hculprit fun more => atomFails_bracket (hfinal more)
  · -- the bracket that closes the empty class is there already
    obtain ⟨front, hfront, htext, hlater⟩ :=
      exists_front_of_spellsItems (spellsItems_of_readItems hitems)
    have hbody : classBody text ≠ [] := by
      rw [htext]
      exact fun hnil => hfront (List.append_eq_nil_iff.1 hnil).1
    have hfinal : ∀ more,
        readClass '[' (text ++ more) = .error ⟨.emptyClass, '[' :: (text ++ more)⟩ := by
      intro more
      refine readClass_eq_error_iff.2 (.inr ⟨rest ++ more, ?_, ?_, rfl⟩)
      · rw [classBody_append hbody, htext, List.append_assoc]
        exact readItems_of_spellsItems _ (hlater (rest ++ more))
      · rw [readLeadingDash_readNegation_append hbody]
        exact hleading
    exact .of_final rfl List.suffix_rfl rfl fun more => atomFails_bracket (hfinal more)

theorem stops_of_readAtom {c : CodePoint} {text : Text} {stop : Stop}
    (h : readAtom c text = .error stop) : Stops AtomAccepts AtomFails (c :: text) stop := by
  unfold readAtom at h
  split_ifs at h with h₁ h₂ h₃ h₄ h₅
  · subst h₁
    rcases text with _ | ⟨x, text⟩
    · obtain rfl : _ = stop := by simpa using h
      have hmend : AtomAccepts ['\\', 'a'] := ⟨.literal 'a', .escaped⟩
      exact .of_unfinished rfl List.suffix_rfl rfl (fun _ => rfl) ⟨['a'], by simp, hmend⟩
    · simp at h
  · subst h₂
    exact stops_of_readClass h

/-- An atom that is not the last thing in a text is read in the same way when the text goes on. -/
theorem readAtom_append {c : CodePoint} {text : Text} {a : Atom} {left : Rest (c :: text)}
    (h : readAtom c text = .ok (a, left)) (hne : left.1 ≠ []) (more : Text) :
    ∃ hleft, readAtom c (text ++ more) = .ok (a, ⟨left.1 ++ more, hleft⟩) := by
  have hmore : SpellsAtom a (c :: (text ++ more)) (left.1 ++ more) :=
    spellsAtom_append (spellsAtom_of_readAtom h) fun hnil => absurd hnil hne
  exact ⟨length_of_spellsAtom hmore, readAtom_of_spellsAtom hmore⟩

theorem stops_of_readGroup {text : Text} {stop : Stop} (h : readGroup text = .error stop) :
    Stops GroupAccepts GroupFails text stop := by
  fun_induction readGroup text with
  | case1 =>
    obtain rfl : _ = stop := by simpa using h
    have hmend : GroupAccepts ['\x7d'] := ⟨[], [], .close⟩
    exact .of_unfinished rfl List.suffix_rfl rfl (by simp) ⟨['\x7d'], by simp, hmend⟩
  | case2 => simp at h
  | case3 text hbrace =>
    obtain rfl : _ = stop := by simpa using h
    refine .of_final rfl List.suffix_rfl rfl fun more => ?_
    rw [GroupFails, List.cons_append, readGroup, if_neg hbrace, if_pos rfl]
    rfl
  | case4 text h₁ h₂ ih =>
    have hread : readGroup text = .error stop := eq_error_of_bind h fun _ => ⟨_, rfl⟩
    refine (ih hread).lift (List.suffix_cons _ _) ?_ ?_
    · rintro more hstar ⟨first, others, hgroup⟩
      exact ⟨more, hstar, [], first :: others, .comma hgroup⟩
    · intro _ more later hfails
      rw [GroupFails, List.cons_append, readGroup, if_neg h₁, if_neg h₂, if_pos rfl]
      exact bind_eq_error_iff.2 (.inl hfails)
  | case5 c text h₁ h₂ h₃ ih =>
    have hc : c ∉ (['\x7b', '\x7d', ','] : Text) := by simp [h₁, h₂, h₃]
    rcases bind_eq_error_iff.1 h with hatom | ⟨⟨a, left⟩, hatom, h⟩
    · refine (stops_of_readAtom hatom).lift List.suffix_rfl ?_ ?_
      · rintro more hstar ⟨a, haccepts⟩
        -- the atom ends the text, so it takes a brace to close the group
        have hclose : SpellsAtom a (c :: text ++ more ++ (['\x7d'] : Text)) ['\x7d'] :=
          spellsAtom_append haccepts fun _ => by simp
        rw [List.append_assoc] at hclose
        have hhead : (more ++ (['\x7d'] : Text)).head? ≠ some ('*' : CodePoint) := by
          cases more with
          | nil => simp
          | cons x more => simpa using hstar
        exact ⟨more ++ (['\x7d'] : Text), hhead, [a], [], .atom hc hclose .close⟩
      · intro _ more later hfails
        rw [GroupFails, List.cons_append, readGroup, if_neg h₁, if_neg h₂, if_neg h₃]
        exact bind_eq_error_iff.2 (.inl (atomFails_cons_iff.1 hfails))
    · have hread : readGroup left.1 = .error stop := eq_error_of_bind h fun _ => ⟨_, rfl⟩
      have hspells := spellsAtom_of_readAtom hatom
      refine (ih left hread).lift (suffix_of_spellsAtom hspells) ?_ ?_
      · rintro more hstar ⟨first, others, hgroup⟩
        exact ⟨more, hstar, a :: first, others,
          .atom hc (spellsAtom_append hspells fun _ => hstar) hgroup⟩
      · intro hne more later hfails
        obtain ⟨hleft, hmore⟩ := readAtom_append hatom hne more
        rw [GroupFails, List.cons_append, readGroup, if_neg h₁, if_neg h₂, if_neg h₃, hmore]
        exact bind_eq_error_iff.2 (.inr ⟨_, rfl, bind_eq_error_iff.2 (.inl hfails)⟩)

theorem stops_of_readPieces {text : Text} {stop : Stop} (h : readPieces text = .error stop) :
    Stops PiecesAccept PiecesFail text stop := by
  fun_induction readPieces text with
  | case1 => simp at h
  | case2 text ihgroup =>
    rcases bind_eq_error_iff.1 h with hgroup | ⟨⟨⟨first, others⟩, left⟩, hgroup, h⟩
    · refine (stops_of_readGroup hgroup).lift (List.suffix_cons _ _) ?_ ?_
      · rintro more hstar ⟨first, others, haccepts⟩
        exact ⟨more, hstar, [.group first others], .group haccepts .nil⟩
      · intro _ more later hfails
        rw [PiecesFail, List.cons_append, readPieces, if_pos rfl]
        exact bind_eq_error_iff.2 (.inl hfails)
    · have hread : readPieces left.1 = .error stop := eq_error_of_bind h fun _ => ⟨_, rfl⟩
      have hspells := spellsGroup_of_readGroup hgroup
      have hsuffix : left.1 <:+ '\x7b' :: text :=
        (suffix_of_spellsGroup hspells).trans (List.suffix_cons _ _)
      refine (ihgroup left hread).lift hsuffix ?_ ?_
      · rintro more hstar ⟨p, hp⟩
        exact ⟨more, hstar, .group first others :: p, .group (spellsGroup_append hspells more) hp⟩
      · intro _ more later hfails
        obtain ⟨hleft, hmore⟩ := readGroup_of_spellsGroup (spellsGroup_append hspells more)
        rw [PiecesFail, List.cons_append, readPieces, if_pos rfl, hmore]
        exact bind_eq_error_iff.2 (.inr ⟨_, rfl, bind_eq_error_iff.2 (.inl hfails)⟩)
  | case3 c text hc ih =>
    rcases bind_eq_error_iff.1 h with hatom | ⟨⟨a, left⟩, hatom, h⟩
    · refine (stops_of_readAtom hatom).lift List.suffix_rfl ?_ ?_
      · rintro more hstar ⟨a, haccepts⟩
        exact ⟨more, hstar, [.atom a], .atom hc haccepts .nil⟩
      · intro _ more later hfails
        rw [PiecesFail, List.cons_append, readPieces, if_neg hc]
        exact bind_eq_error_iff.2 (.inl (atomFails_cons_iff.1 hfails))
    · have hread : readPieces left.1 = .error stop := eq_error_of_bind h fun _ => ⟨_, rfl⟩
      have hspells := spellsAtom_of_readAtom hatom
      refine (ih left hread).lift (suffix_of_spellsAtom hspells) ?_ ?_
      · rintro more hstar ⟨p, hp⟩
        exact ⟨more, hstar, .atom a :: p,
          .atom hc (spellsAtom_append hspells fun _ => hstar) hp⟩
      · intro hne more later hfails
        obtain ⟨hleft, hmore⟩ := readAtom_append hatom hne more
        rw [PiecesFail, List.cons_append, readPieces, if_neg hc, hmore]
        exact bind_eq_error_iff.2 (.inr ⟨_, rfl, bind_eq_error_iff.2 (.inl hfails)⟩)

/-! ## Rejections -/

theorem compile_eq_error_iff {pattern : Text} {rejection : Rejection} :
    compile pattern = .error rejection ↔
      ∃ before stop, pattern = before ++ stop.rest ∧
        readPieces pattern = .error stop ∧
          rejection = ⟨pattern, stop.reason, before.length⟩ := by
  unfold compile Pattern.parse
  cases hread : readPieces pattern with
  | ok p => simp [Except.mapError]
  | error stop =>
    obtain ⟨before, hbefore⟩ := (stops_of_readPieces hread).place
    have hposition : ∀ start, pattern = start ++ stop.rest →
        pattern.length - stop.rest.length = start.length := by
      intro start hstart
      simp [hstart]
    simp only [Except.mapError, Except.error.injEq]
    constructor
    · intro h
      exact ⟨before, stop, hbefore.symm, rfl, by rw [← h, hposition before hbefore.symm]⟩
    · rintro ⟨start, _, hstart, rfl, rfl⟩
      rw [hposition start hstart]

theorem exists_compile_of_accepts {pattern : Text} (h : PiecesAccept pattern) :
    ∃ r, compile pattern = .ok r := by
  obtain ⟨p, hp⟩ := h
  exact ⟨_, compile_eq_ok_iff.2 ⟨p, parse_eq_ok_iff.2 hp, rfl⟩⟩

/-- What stands before the place where the reader stops can be written on to a pattern. -/
theorem exists_completion_before {before : Text} {stop : Stop}
    (h : readPieces (before ++ stop.rest) = .error stop) :
    ∃ more, PiecesAccept (before ++ more) := by
  cases hread : readPieces before with
  | ok p => exact ⟨[], p, by simpa using spells_of_readPieces hread⟩
  | error early =>
    have hstops := stops_of_readPieces hread
    cases hreason : early.reason.isUnfinished with
    | true =>
      obtain ⟨more, -, hmore⟩ := hstops.mend hreason
      exact ⟨more, hmore⟩
    | false =>
      -- a fault that stays would stop the reader of the whole text, before the place
      have hfinal : readPieces (before ++ stop.rest) = .error (early.writeOn stop.rest) :=
        hstops.final hreason stop.rest
      have hrest : stop.rest = early.rest ++ stop.rest :=
        congrArg Stop.rest (Except.error.inj (h.symm.trans hfinal))
      exact absurd (List.self_eq_append_left.1 hrest) (rest_ne_nil hstops.culprit hreason)

/-- **Rejection is repairable or final, and points at the fault.** -/
theorem rejection_located {pattern source : Text} {reason : Reason} {position : Nat}
    (h : compile pattern = .error ⟨source, reason, position⟩) :
    source = pattern ∧
      (reason.isUnfinished = true → ∃ more r, compile (pattern ++ more) = .ok r) ∧
      (reason.isUnfinished = false →
        ∀ more, compile (pattern ++ more) = .error ⟨pattern ++ more, reason, position⟩) ∧
      position ≤ pattern.length ∧
      (∃ more r, compile (pattern.take position ++ more) = .ok r) ∧
      pattern[position]? = reason.culprit ∧
      (reason = .noCharacterToEscape → position + 1 = pattern.length) ∧
      (reason = .missingBrace → position = pattern.length) := by
  obtain ⟨before, stop, hbefore, hread, heq⟩ := compile_eq_error_iff.1 h
  obtain ⟨rfl, rfl, rfl⟩ : source = pattern ∧ reason = stop.reason ∧ position = before.length := by
    simpa using heq
  have hstops := stops_of_readPieces hread
  have hlength : source.length = before.length + stop.rest.length := by
    rw [hbefore, List.length_append]
  refine ⟨rfl, ?_, ?_, by omega, ?_, ?_, ?_, ?_⟩
  · intro hreason
    obtain ⟨more, -, haccepts⟩ := hstops.mend hreason
    exact ⟨more, exists_compile_of_accepts haccepts⟩
  · intro hreason more
    refine compile_eq_error_iff.2 ⟨before, stop.writeOn more, ?_, hstops.final hreason more, rfl⟩
    rw [hbefore, List.append_assoc]
    rfl
  · rw [hbefore] at hread
    obtain ⟨more, haccepts⟩ := exists_completion_before hread
    refine ⟨more, exists_compile_of_accepts ?_⟩
    rwa [hbefore, List.take_left]
  · rw [hbefore, List.getElem?_append_right (Nat.le_refl _), Nat.sub_self, ← List.head?_eq_getElem?]
    exact hstops.culprit
  · intro hreason
    have hlast := hstops.last hreason
    omega
  · intro hreason
    have hend : stop.rest.head? = none := by
      rw [hstops.culprit, hreason]
      rfl
    rw [List.head?_eq_none_iff.1 hend] at hlength
    exact hlength.symm

/-- A class in a group that ends in a dash, and a dash right after a range. -/
theorem rejection_located_dashes :
    (∃ more r, compile (Text.ofString "\x7ba,[x-" ++ more) = .ok r) ∧
      ∀ more, compile (Text.ofString "[a-c-e]" ++ more) =
        .error ⟨Text.ofString "[a-c-e]" ++ more, .invalidRange, 4⟩ := by
  have hopen : compile "\x7ba,[x-" = .error ⟨"\x7ba,[x-", .missingBracket, 3⟩ := by cbv
  have hdash : compile "[a-c-e]" = .error ⟨"[a-c-e]", .invalidRange, 4⟩ := by cbv
  exact ⟨(rejection_located hopen).2.1 rfl, (rejection_located hdash).2.2.1 rfl⟩

end ArchiveIndex.Glob
