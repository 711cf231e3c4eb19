import ArchiveIndex.Proofs.Json.Scalars

/-!
# Reading a written document

**Theorem (`read_writeDocument`).** A plain document that was written in any layout is read back.

A document is plain if nothing of it is lost on the way: it has no numbers but integers that are
not too long, no lone surrogates, and no name twice in an object (`Plain`).

Every part of a value is read up to what follows it (`Finds`). The blanks of a layout stand where
the reader skips them, and each value begins with a character that is no blank and no closing
bracket. So the reader finds the parts one by one, by induction on the value.
-/

namespace ArchiveIndex.Json

/-! ## Plain documents -/

/-- The documents that are read back as they were written, if integers may have so many digits. -/
inductive Plain (limit : Nat) : Json → Prop
  | null : Plain limit .null
  | bool (b : Bool) : Plain limit (.bool b)
  | int {n : Int} (h : (Numeral.ofNat n.natAbs).length ≤ limit) : Plain limit (.int n)
  | str {t : Text} (h : t.Proper) : Plain limit (.str t)
  | arr {items : List Json} (h : ∀ item ∈ items, Plain limit item) : Plain limit (.arr items)
  | obj {fields : List (Text × Json)} (hnames : ∀ field ∈ fields, field.1.Proper)
      (hvalues : ∀ field ∈ fields, Plain limit field.2)
      (hdistinct : (fields.map (·.1)).Nodup) : Plain limit (.obj fields)

/-! ## Blanks -/

theorem skipBlank_append {gap : List Char} (h : ∀ c ∈ gap, isBlank c = true) (s : List Char) :
    skipBlank (gap ++ s) = skipBlank s :=
  List.dropWhile_append_of_pos h

theorem skipBlank_cons {c : Char} (h : isBlank c = false) (s : List Char) :
    skipBlank (c :: s) = c :: s :=
  List.dropWhile_cons_of_neg (by simp [h])

theorem isBlank_of_mem_lineBreak {spacing : Spacing} {depth : Nat} {c : Char}
    (h : c ∈ spacing.lineBreak depth) : isBlank c = true := by
  cases spacing with
  | compact => cases h
  | spaced => cases h
  | indented width =>
    rcases List.mem_cons.1 h with rfl | h
    · rfl
    · rw [List.eq_of_mem_replicate h]
      rfl

theorem skipBlank_lineBreak (spacing : Spacing) (depth : Nat) (s : List Char) :
    skipBlank (spacing.lineBreak depth ++ s) = skipBlank s :=
  skipBlank_append (fun _ => isBlank_of_mem_lineBreak) s

/-- Between a comma and the next item or field there are only blanks. -/
theorem exists_comma_eq_cons (spacing : Spacing) (depth : Nat) (s : List Char) :
    ∃ next, spacing.comma ++ (spacing.lineBreak depth ++ s) = ',' :: next ∧
      skipBlank next = skipBlank s := by
  cases spacing with
  | compact => exact ⟨s, rfl, rfl⟩
  | spaced => exact ⟨' ' :: s, rfl, List.dropWhile_cons_of_pos rfl⟩
  | indented width => exact ⟨_, rfl, skipBlank_lineBreak (.indented width) depth s⟩

/-- Between a colon and the value after it there are only blanks. -/
theorem exists_colon_eq_cons (spacing : Spacing) (s : List Char) :
    ∃ next, spacing.colon ++ s = ':' :: next ∧ skipBlank next = skipBlank s := by
  cases spacing with
  | compact => exact ⟨s, rfl, rfl⟩
  | spaced => exact ⟨' ' :: s, rfl, List.dropWhile_cons_of_pos rfl⟩
  | indented => exact ⟨' ' :: s, rfl, List.dropWhile_cons_of_pos rfl⟩

theorem follows_lineBreak (spacing : Spacing) (depth : Nat) {c : Char}
    (h : c ∈ [',', ']', '\x7d', '\n']) (rest : List Char) :
    Follows (spacing.lineBreak depth ++ c :: rest) := by
  cases spacing with
  | compact => exact follows_cons h rest
  | spaced => exact follows_cons h rest
  | indented => exact follows_cons (by decide) _

/-- A value may begin with this character: it is no blank, it closes nothing, and it is no byte
order mark. -/
def Begins (c : Char) : Prop := isBlank c = false ∧ c ≠ ']' ∧ c ≠ '\x7d' ∧ c ≠ '\uFEFF'

instance : DecidablePred Begins := fun _ => inferInstanceAs (Decidable (_ ∧ _ ∧ _ ∧ _))

theorem head?_ne_of_begins {c x : Char} (hc : Begins c) (hx : ¬ Begins x) (s : List Char) :
    (c :: s).head? ≠ some x := by
  rw [List.head?_cons, ne_eq, Option.some.injEq]
  rintro rfl
  exact hx hc

theorem exists_write_eq_cons {limit : Nat} {v : Json} (hv : Plain limit v) (l : Layout)
    (depth : Nat) : ∃ c s, write l depth v = c :: s ∧ Begins c := by
  cases hv with
  | null => exact ⟨'n', _, by rw [write]; rfl, by decide⟩
  | bool b =>
    cases b with
    | false => exact ⟨'f', _, by rw [write]; rfl, by decide⟩
    | true => exact ⟨'t', _, by rw [write]; rfl, by decide⟩
  | @int n =>
    obtain ⟨c, s, hs, hc⟩ := exists_ofInt_eq_cons n
    rw [write]
    refine ⟨c, s, hs, ?_⟩
    -- all the other characters are ruled out one by one
    by_contra hnot
    simp only [Begins, isBlank, Bool.or_eq_false_iff, decide_eq_false_iff_not, not_and_or, ne_eq,
      not_not] at hnot
    rcases hnot with (((rfl | rfl) | rfl) | rfl) | rfl | rfl | rfl <;> exact absurd hc (by decide)
  | str => exact ⟨'"', _, by rw [write]; rfl, by decide⟩
  | @arr items =>
    cases items with
    | nil => exact ⟨'[', _, by rw [write], by decide⟩
    | cons => exact ⟨'[', _, by rw [write]; rfl, by decide⟩
  | @obj fields =>
    cases fields with
    | nil => exact ⟨'\x7b', _, by rw [write], by decide⟩
    | cons => exact ⟨'\x7b', _, by rw [write]; rfl, by decide⟩

theorem skipBlank_write {limit : Nat} {v : Json} (hv : Plain limit v) (l : Layout) (depth : Nat)
    (s : List Char) : skipBlank (write l depth v ++ s) = write l depth v ++ s := by
  obtain ⟨c, later, hwrite, hc, -⟩ := exists_write_eq_cons hv l depth
  rw [hwrite, List.cons_append, skipBlank_cons hc]

/-! ## Steps of the reader -/

variable {limit : Option Nat}

theorem expect_of_eq_cons {c : Char} {s rest : List Char} (cause : Cause) (h : s = c :: rest) :
    ∃ hlt, expect c cause s = .ok ⟨rest, hlt⟩ := by
  subst h
  exact ⟨Nat.lt_succ_self _, if_pos rfl⟩

theorem length_lt_of_skipBlank_eq_cons {c : Char} {s rest : List Char}
    (h : skipBlank s = c :: rest) : rest.length < s.length := by
  have hle := length_skipBlank_le s
  rw [h, List.length_cons] at hle
  exact hle

theorem readItems_last {s r rest : List Char} {value : Json}
    (hvalue : Finds (readValue limit) s value r) (hclose : skipBlank r = ']' :: rest) :
    Finds (readItems limit) s [value] rest := by
  obtain ⟨hlt, hread⟩ := hvalue
  have hrest := length_lt_of_skipBlank_eq_cons hclose
  refine ⟨hrest.trans hlt, ?_⟩
  have hhead : (skipBlank r).head? = some ']' := by rw [hclose]; rfl
  have htail : (skipBlank r).tail = rest := by rw [hclose]; rfl
  rw [readItems, hread]
  simp only [bind, Except.bind, if_pos hhead, htail]
  rfl

theorem readItems_more {s r next rest : List Char} {value : Json} {values : List Json}
    (hvalue : Finds (readValue limit) s value r) (hcomma : skipBlank r = ',' :: next)
    (hvalues : Finds (readItems limit) (skipBlank next) values rest) :
    Finds (readItems limit) s (value :: values) rest := by
  obtain ⟨hlt, hread⟩ := hvalue
  obtain ⟨hlt', hread'⟩ := hvalues
  have hnext := length_lt_of_skipBlank_eq_cons hcomma
  have hle := length_skipBlank_le next
  refine ⟨by omega, ?_⟩
  have hhead : (skipBlank r).head? ≠ some ']' := by simp [hcomma]
  obtain ⟨_, hexpect⟩ := expect_of_eq_cons .expectedComma hcomma
  rw [readItems, hread]
  simp only [bind, Except.bind, if_neg hhead, hexpect, hread']
  rfl

/-- A name, a colon and a value are found at the front of a text. -/
def FindsField (limit : Option Nat) (s : List Char) (field : Text × Json) (rest : List Char) :
    Prop :=
  ∃ r r', Finds (readQuoted .expectedName) s field.1 r ∧ skipBlank r = ':' :: r' ∧
    Finds (readValue limit) (skipBlank r') field.2 rest

theorem readFields_last {s r rest : List Char} {field : Text × Json}
    (hfield : FindsField limit s field r) (hclose : skipBlank r = '\x7d' :: rest) :
    Finds (readFields limit) s [field] rest := by
  obtain ⟨r₁, r₂, ⟨hlt, hread⟩, hcolon, ⟨hlt', hread'⟩⟩ := hfield
  have hle := length_skipBlank_le r₂
  have hafter := length_lt_of_skipBlank_eq_cons hcolon
  have hrest := length_lt_of_skipBlank_eq_cons hclose
  refine ⟨by omega, ?_⟩
  obtain ⟨_, hexpect⟩ := expect_of_eq_cons .expectedColon hcolon
  have hhead : (skipBlank r).head? = some '\x7d' := by rw [hclose]; rfl
  have htail : (skipBlank r).tail = rest := by rw [hclose]; rfl
  rw [readFields, hread]
  simp only [bind, Except.bind, hexpect, hread', if_pos hhead, htail]
  rfl

theorem readFields_more {s r next rest : List Char} {field : Text × Json}
    {fields : List (Text × Json)} (hfield : FindsField limit s field r)
    (hcomma : skipBlank r = ',' :: next)
    (hfields : Finds (readFields limit) (skipBlank next) fields rest) :
    Finds (readFields limit) s (field :: fields) rest := by
  obtain ⟨r₁, r₂, ⟨hlt, hread⟩, hcolon, ⟨hlt', hread'⟩⟩ := hfield
  obtain ⟨hlt'', hread''⟩ := hfields
  have hle := length_skipBlank_le r₂
  have hle' := length_skipBlank_le next
  have hafter := length_lt_of_skipBlank_eq_cons hcolon
  have hnext := length_lt_of_skipBlank_eq_cons hcomma
  refine ⟨by omega, ?_⟩
  obtain ⟨_, hexpect⟩ := expect_of_eq_cons .expectedColon hcolon
  obtain ⟨_, hexpect'⟩ := expect_of_eq_cons .expectedComma hcomma
  have hhead : (skipBlank r).head? ≠ some '\x7d' := by simp [hcomma]
  rw [readFields, hread]
  simp only [bind, Except.bind, hexpect, hread', if_neg hhead, hexpect', hread'']
  rfl

theorem readValue_scalar {c : Char} {s rest : List Char} {value : Json} (hc : c ≠ '[' ∧ c ≠ '\x7b')
    (h : Finds (readScalar limit) (c :: s) value rest) :
    Finds (readValue limit) (c :: s) value rest := by
  obtain ⟨hlt, hread⟩ := h
  refine ⟨hlt, ?_⟩
  rw [readValue]
  simp only [if_neg hc.1, if_neg hc.2, hread]

theorem readValue_emptyList {s rest : List Char} (h : skipBlank s = ']' :: rest) :
    Finds (readValue limit) ('[' :: s) (.arr []) rest := by
  have hrest := length_lt_of_skipBlank_eq_cons h
  refine ⟨Nat.lt_succ_of_lt hrest, ?_⟩
  have hhead : (skipBlank s).head? = some ']' := by rw [h]; rfl
  have htail : (skipBlank s).tail = rest := by rw [h]; rfl
  rw [readValue]
  simp only [if_pos, hhead, htail]

theorem readValue_list {s rest : List Char} {items : List Json}
    (hopen : (skipBlank s).head? ≠ some ']')
    (h : Finds (readItems limit) (skipBlank s) items rest) :
    Finds (readValue limit) ('[' :: s) (.arr items) rest := by
  obtain ⟨hlt, hread⟩ := h
  have hle := length_skipBlank_le s
  refine ⟨by simp only [List.length_cons]; omega, ?_⟩
  rw [readValue]
  simp only [if_pos, if_neg hopen, hread]
  rfl

theorem readValue_emptyObject {s rest : List Char} (h : skipBlank s = '\x7d' :: rest) :
    Finds (readValue limit) ('\x7b' :: s) (.obj []) rest := by
  have hrest := length_lt_of_skipBlank_eq_cons h
  refine ⟨Nat.lt_succ_of_lt hrest, ?_⟩
  have hhead : (skipBlank s).head? = some '\x7d' := by rw [h]; rfl
  have htail : (skipBlank s).tail = rest := by rw [h]; rfl
  rw [readValue]
  simp only [if_neg (show ¬ '\x7b' = '[' by decide), if_pos, hhead, htail]

theorem readValue_object {s rest : List Char} {fields : List (Text × Json)}
    (hopen : (skipBlank s).head? ≠ some '\x7d')
    (h : Finds (readFields limit) (skipBlank s) fields rest) :
    Finds (readValue limit) ('\x7b' :: s) (.obj (ofFields fields)) rest := by
  obtain ⟨hlt, hread⟩ := h
  have hle := length_skipBlank_le s
  refine ⟨by simp only [List.length_cons]; omega, ?_⟩
  rw [readValue]
  simp only [if_neg (show ¬ '\x7b' = '[' by decide), if_pos, if_neg hopen, hread]
  rfl

/-! ## Distinct names -/

theorem put_of_not_mem {name : Text} {value : Json} {known : List (Text × Json)}
    (h : name ∉ known.map (·.1)) : put name value known = known ++ [(name, value)] := by
  induction known with
  | nil => rfl
  | cons field known ih =>
    rw [List.map_cons, List.mem_cons, not_or] at h
    rw [put, if_neg (Ne.symm h.1), ih h.2, List.cons_append]

theorem foldl_put_of_nodup (known : List (Text × Json)) {fields : List (Text × Json)}
    (h : ((known ++ fields).map (·.1)).Nodup) :
    fields.foldl (fun known field => put field.1 field.2 known) known = known ++ fields := by
  induction fields generalizing known with
  | nil => simp
  | cons field fields ih =>
    have hnew : field.1 ∉ known.map (·.1) := by
      rw [List.map_append, List.nodup_append'] at h
      exact fun hmem => h.2.2 hmem (List.mem_map_of_mem List.mem_cons_self)
    rw [List.foldl_cons, put_of_not_mem hnew, ih _ (by rwa [List.append_assoc]), List.append_assoc]
    rfl

/-- No field is lost if no name stands twice. -/
theorem ofFields_of_nodup {fields : List (Text × Json)} (h : (fields.map (·.1)).Nodup) :
    ofFields fields = fields :=
  foldl_put_of_nodup [] h

/-! ## Written values -/

/-- A value is found wherever it was written. -/
def Recovered (limit : Nat) (l : Layout) (v : Json) : Prop :=
  ∀ depth rest, Follows rest → Finds (readValue (some limit)) (write l depth v ++ rest) v rest

theorem finds_items {limit : Nat} (l : Layout) (depth outer : Nat) {item : Json}
    {items : List Json} (hplain : ∀ x ∈ item :: items, Plain limit x)
    (h : ∀ x ∈ item :: items, Recovered limit l x) (rest : List Char) :
    Finds (readItems (some limit)) (write l depth item ++ (writeItems l depth items ++
      (l.spacing.lineBreak outer ++ ']' :: rest))) (item :: items) rest := by
  induction items generalizing item with
  | nil =>
    rw [writeItems, List.nil_append]
    have hclose : skipBlank (l.spacing.lineBreak outer ++ ']' :: rest) = ']' :: rest := by
      rw [skipBlank_lineBreak, skipBlank_cons rfl]
    exact readItems_last (h item List.mem_cons_self depth _
      (follows_lineBreak l.spacing outer (by decide) rest)) hclose
  | cons item' items ih =>
    obtain ⟨hitem, hitems⟩ := List.forall_mem_cons.1 h
    obtain ⟨-, hplains⟩ := List.forall_mem_cons.1 hplain
    simp only [writeItems, List.append_assoc]
    obtain ⟨next, hcomma, hnext⟩ := exists_comma_eq_cons l.spacing depth
      (write l depth item' ++ (writeItems l depth items ++
        (l.spacing.lineBreak outer ++ ']' :: rest)))
    rw [skipBlank_write (hplains item' List.mem_cons_self)] at hnext
    rw [hcomma]
    refine readItems_more (hitem depth _ (follows_cons (by decide) next)) (skipBlank_cons rfl _) ?_
    rw [hnext]
    exact ih hplains hitems

theorem skipBlank_writeText (l : Layout) (t : Text) (s : List Char) :
    skipBlank (writeText l t ++ s) = writeText l t ++ s :=
  skipBlank_cons rfl _

theorem findsField_written {limit : Nat} (l : Layout) (depth : Nat) {field : Text × Json}
    (hname : field.1.Proper) (hplain : Plain limit field.2) (h : Recovered limit l field.2)
    {rest : List Char} (hrest : Follows rest) :
    FindsField (some limit) (writeText l field.1 ++ (l.spacing.colon ++
      (write l depth field.2 ++ rest))) field rest := by
  obtain ⟨next, hcolon, hnext⟩ := exists_colon_eq_cons l.spacing (write l depth field.2 ++ rest)
  rw [skipBlank_write hplain] at hnext
  rw [hcolon]
  refine ⟨_, next, readQuoted_writeText .expectedName l hname _, skipBlank_cons rfl _, ?_⟩
  rw [hnext]
  exact h depth rest hrest

theorem finds_fields {limit : Nat} (l : Layout) (depth outer : Nat) {field : Text × Json}
    {fields : List (Text × Json)} (hnames : ∀ x ∈ field :: fields, x.1.Proper)
    (hplain : ∀ x ∈ field :: fields, Plain limit x.2)
    (h : ∀ x ∈ field :: fields, Recovered limit l x.2) (rest : List Char) :
    Finds (readFields (some limit)) (writeText l field.1 ++ (l.spacing.colon ++
      (write l depth field.2 ++ (writeFields l depth fields ++
        (l.spacing.lineBreak outer ++ '\x7d' :: rest))))) (field :: fields) rest := by
  induction fields generalizing field with
  | nil =>
    rw [writeFields, List.nil_append]
    have hclose : skipBlank (l.spacing.lineBreak outer ++ '\x7d' :: rest) = '\x7d' :: rest := by
      rw [skipBlank_lineBreak, skipBlank_cons rfl]
    exact readFields_last (findsField_written l depth (hnames _ List.mem_cons_self)
      (hplain _ List.mem_cons_self) (h _ List.mem_cons_self)
      (follows_lineBreak l.spacing outer (by decide) rest)) hclose
  | cons field' fields ih =>
    obtain ⟨hname, hnames⟩ := List.forall_mem_cons.1 hnames
    obtain ⟨hvalue, hplain⟩ := List.forall_mem_cons.1 hplain
    obtain ⟨hfield, h⟩ := List.forall_mem_cons.1 h
    simp only [writeFields, List.append_assoc]
    obtain ⟨next, hcomma, hnext⟩ := exists_comma_eq_cons l.spacing depth
      (writeText l field'.1 ++ (l.spacing.colon ++ (write l depth field'.2 ++
        (writeFields l depth fields ++ (l.spacing.lineBreak outer ++ '\x7d' :: rest)))))
    rw [skipBlank_writeText] at hnext
    rw [hcomma]
    refine readFields_more (findsField_written l depth hname hvalue hfield
      (follows_cons (by decide) next)) (skipBlank_cons rfl _) ?_
    rw [hnext]
    exact ih hnames hplain h

/-- **A written value is found.** -/
theorem recovered_of_plain {limit : Nat} {v : Json} (hv : Plain limit v) (l : Layout) :
    Recovered limit l v := by
  induction hv with
  | null =>
    intro depth rest _
    rw [write]
    exact readValue_scalar (by decide) (finds_of_readWord _ rfl)
  | bool b =>
    intro depth rest _
    cases b <;> rw [write] <;> exact readValue_scalar (by decide) (finds_of_readWord _ rfl)
  | @int n hn =>
    intro depth rest hrest
    rw [write]
    have hfound := finds_int hn hrest
    obtain ⟨c, s, hs, hc⟩ := exists_ofInt_eq_cons n
    rw [hs] at hfound ⊢
    refine readValue_scalar ⟨?_, ?_⟩ hfound
    · rintro rfl
      exact absurd hc (by decide)
    · rintro rfl
      exact absurd hc (by decide)
  | str ht =>
    intro depth rest _
    rw [write]
    exact readValue_scalar (by decide) (finds_str _ l ht rest)
  | @arr items hitems ih =>
    intro depth rest hrest
    cases items with
    | nil =>
      rw [write]
      exact readValue_emptyList (skipBlank_cons rfl rest)
    | cons item items =>
      -- the reader asks for a bracket first, but an item begins otherwise
      have hfound := finds_items l (depth + 1) depth hitems ih rest
      obtain ⟨c, s, hs, hc⟩ := exists_write_eq_cons (hitems item List.mem_cons_self) l (depth + 1)
      simp only [write, List.cons_append, List.append_assoc, List.nil_append]
      have hinner := (skipBlank_lineBreak l.spacing (depth + 1) _).trans
        (skipBlank_write (hitems item List.mem_cons_self) l (depth + 1)
          (writeItems l (depth + 1) items ++ (l.spacing.lineBreak depth ++ ']' :: rest)))
      refine readValue_list ?_ ?_
      · rw [hinner, hs]
        exact head?_ne_of_begins hc (by decide) _
      · rw [hinner]
        exact hfound
  | @obj fields hnames hvalues hdistinct ih =>
    intro depth rest hrest
    cases fields with
    | nil =>
      rw [write]
      exact readValue_emptyObject (skipBlank_cons rfl rest)
    | cons field fields =>
      have hfound := finds_fields l (depth + 1) depth hnames hvalues ih rest
      simp only [write, List.cons_append, List.append_assoc, List.nil_append]
      have hinner := (skipBlank_lineBreak l.spacing (depth + 1) _).trans
        (skipBlank_writeText l field.1 (l.spacing.colon ++ (write l (depth + 1) field.2 ++
          (writeFields l (depth + 1) fields ++ (l.spacing.lineBreak depth ++ '\x7d' :: rest)))))
      rw [← ofFields_of_nodup hdistinct]
      refine readValue_object ?_ ?_
      · rw [hinner]
        exact head?_ne_of_begins (c := '"') (by decide) (by decide) _
      · rw [hinner]
        exact hfound

/-! ## Documents -/

/-- **A plain document is read back, whatever its layout.** -/
theorem read_writeDocument {limit : Nat} {v : Json} (hv : Plain limit v) (l : Layout) :
    read (some limit) (writeDocument l v) = .ok v := by
  obtain ⟨c, s, hs, hc⟩ := exists_write_eq_cons hv l 0
  have hmark : (write l 0 v).head? ≠ some '\uFEFF' := by
    rw [hs]
    exact head?_ne_of_begins hc (by decide) s
  have hskip : skipBlank (write l 0 v) = write l 0 v := by
    rw [hs, skipBlank_cons hc.1]
  have hfound := recovered_of_plain hv l 0 [] follows_nil
  rw [List.append_nil, ← hskip] at hfound
  obtain ⟨hlt, hread⟩ := hfound
  have hdocument : readDocument (some limit) (write l 0 v) = .ok v := by
    rw [readDocument, if_neg hmark]
    simp only [bind, Except.bind, hread]
    exact if_pos rfl
  rw [read, writeDocument, hdocument]
  rfl

/-! ## Carriage returns -/

theorem cr_not_mem_escapeUnit (n : Nat) : '\r' ∉ escapeUnit n := by
  have hdigit : ∀ d < 16, '\r' ≠ Nat.digitChar d := by decide
  have hhex : ∀ width n, '\r' ∉ Numeral.hex width n := by
    intro width
    induction width with
    | zero => exact fun n => List.not_mem_nil
    | succ width ih =>
      intro n
      rw [Numeral.hex, List.mem_append, List.mem_singleton, not_or]
      exact ⟨ih _, hdigit _ (Nat.mod_lt n (by decide))⟩
  rw [escapeUnit, List.mem_cons, List.mem_cons, not_or, not_or]
  exact ⟨by decide, by decide, hhex 4 n⟩

/-- A carriage return in a string is escaped. -/
theorem cr_not_mem_writeText (l : Layout) (t : Text) : '\r' ∉ writeText l t := by
  have hcode : ∀ p, '\r' ∉ writeCode l p := by
    intro p
    unfold writeCode
    cases p.toChar? with
    | none => exact cr_not_mem_escapeUnit _
    | some c =>
      simp only
      split_ifs with h₁ h₂ h₃ h₄ h₅ h₆ h₇ h₈
      · rcases h₁ with h | h <;> rw [h] <;> decide
      · decide
      · decide
      · decide
      · decide
      · decide
      · exact cr_not_mem_escapeUnit _
      · unfold escapeCode
        split_ifs
        · exact cr_not_mem_escapeUnit _
        · rw [List.mem_append, not_or]
          exact ⟨cr_not_mem_escapeUnit _, cr_not_mem_escapeUnit _⟩
      · rw [List.mem_singleton]
        exact Ne.symm h₃
  rw [writeText, List.mem_append, List.mem_cons, List.mem_flatMap]
  rintro ((h | ⟨p, -, h⟩) | h)
  · exact absurd h (by decide)
  · exact hcode p h
  · exact absurd h (by decide)

theorem cr_not_mem_spacing (spacing : Spacing) (depth : Nat) :
    '\r' ∉ spacing.comma ∧ '\r' ∉ spacing.colon ∧ '\r' ∉ spacing.lineBreak depth := by
  cases spacing <;> simp [Spacing.comma, Spacing.colon, Spacing.lineBreak]

theorem cr_not_mem_writeItems {l : Layout} {depth : Nat} {items : List Json}
    (h : ∀ item ∈ items, '\r' ∉ write l depth item) : '\r' ∉ writeItems l depth items := by
  obtain ⟨hcomma, -, hbreak⟩ := cr_not_mem_spacing l.spacing depth
  induction items with
  | nil => simp [writeItems]
  | cons item items ih =>
    obtain ⟨hitem, hitems⟩ := List.forall_mem_cons.1 h
    simp [writeItems, hcomma, hbreak, hitem, ih hitems]

theorem cr_not_mem_writeFields {l : Layout} {depth : Nat} {fields : List (Text × Json)}
    (h : ∀ field ∈ fields, '\r' ∉ write l depth field.2) : '\r' ∉ writeFields l depth fields := by
  obtain ⟨hcomma, hcolon, hbreak⟩ := cr_not_mem_spacing l.spacing depth
  induction fields with
  | nil => simp [writeFields]
  | cons field fields ih =>
    obtain ⟨hvalue, hfields⟩ := List.forall_mem_cons.1 h
    simp [writeFields, hcomma, hcolon, hbreak, cr_not_mem_writeText, hvalue, ih hfields]

/-- **No line of a written document ends with a carriage return.** -/
theorem cr_not_mem_write {limit : Nat} {v : Json} (hv : Plain limit v) (l : Layout) (depth : Nat) :
    '\r' ∉ write l depth v := by
  induction hv generalizing depth with
  | null => simp [write]
  | bool b => cases b <;> simp [write]
  | @int n =>
    rw [write, Numeral.ofInt]
    have hdigits : '\r' ∉ Numeral.ofNat n.natAbs := fun h =>
      absurd (isDigit_of_mem_ofNat h) (by decide)
    split_ifs
    · simp [hdigits]
    · exact hdigits
  | str =>
    rw [write]
    exact cr_not_mem_writeText l _
  | @arr items _ ih =>
    cases items with
    | nil => simp [write]
    | cons item items =>
      obtain ⟨hitem, hitems⟩ := List.forall_mem_cons.1 ih
      have hlater := cr_not_mem_writeItems fun x hx => hitems x hx (depth + 1)
      simp [write, cr_not_mem_spacing, hitem, hlater]
  | @obj fields _ _ _ ih =>
    cases fields with
    | nil => simp [write]
    | cons field fields =>
      obtain ⟨hvalue, hfields⟩ := List.forall_mem_cons.1 ih
      have hlater := cr_not_mem_writeFields fun x hx => hfields x hx (depth + 1)
      obtain ⟨-, hcolon, -⟩ := cr_not_mem_spacing l.spacing depth
      simp [write, cr_not_mem_spacing, hcolon, cr_not_mem_writeText, hvalue, hlater]

end ArchiveIndex.Json
