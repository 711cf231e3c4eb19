import ArchiveIndex.Json.Reader
import ArchiveIndex.Json.Writer
import ArchiveIndex.Proofs.Text.Proper
import Mathlib

/-!
# Numbers and strings of a document

What the writer writes for an integer or a string is read back, and what comes after it is left.

**Theorem (`readNumber_ofInt`).** The numeral of an integer is read as its sign and its digits, if
nothing follows that a number could go on with.
**Theorem (`readQuoted_writeText`).** A written text is read as the text, if it is proper.

A number is taken as far as it fits, so what follows it matters (`Follows`). A string has an end
of its own. There the writer may escape a character beyond U+FFFF as two halves of a pair, which
the reader takes in one after the other (`units`) and joins when it has come to the closing quote.
-/

namespace ArchiveIndex.Json

/-! ## Integers -/

/-- What may follow a value in a written document: nothing, or what goes on with a list, an object
or a line. -/
def Follows (rest : List Char) : Prop := ∀ c, rest.head? = some c → c ∈ [',', ']', '\x7d', '\n']

theorem follows_nil : Follows [] := by simp [Follows]

theorem follows_cons {c : Char} (h : c ∈ [',', ']', '\x7d', '\n']) (rest : List Char) :
    Follows (c :: rest) := by
  intro x hx
  rwa [← Option.some.inj hx]

/-- A number does not go on with what may follow a value. -/
theorem ends_of_follows {c : Char} {rest : List Char} (h : Follows (c :: rest)) :
    c.isDigit = false ∧ c ≠ '.' ∧ c ≠ 'e' ∧ c ≠ 'E' := by
  have hc := h c rfl
  simp only [List.mem_cons, List.not_mem_nil, or_false] at hc
  rcases hc with rfl | rfl | rfl | rfl <;> decide

theorem digits_append {ds rest : List Char} (hds : ∀ c ∈ ds, c.isDigit = true)
    (h : Follows rest) : digits (ds ++ rest) = (ds, rest) := by
  rw [digits, List.takeWhile_append_of_pos hds, List.dropWhile_append_of_pos hds]
  cases rest with
  | nil => simp
  | cons c rest =>
    obtain ⟨hc, -⟩ := ends_of_follows h
    rw [List.takeWhile_cons_of_neg (by simp [hc]), List.dropWhile_cons_of_neg (by simp [hc]),
      List.append_nil]

theorem isDigit_of_mem_ofNat {n : Nat} {c : Char} (h : c ∈ Numeral.ofNat n) :
    c.isDigit = true :=
  Nat.isDigit_of_mem_toDigits (by decide) (by decide) h

/-- Only zero has a numeral that begins with a zero. -/
theorem exists_ofNat_eq_cons {n : Nat} (h : 0 < n) :
    ∃ c ds, Numeral.ofNat n = c :: ds ∧ c ≠ '0' := by
  induction n using Nat.strong_induction_on with
  | _ n ih =>
    unfold Numeral.ofNat
    rw [Nat.toDigits_eq_if (by decide)]
    split_ifs with hlt
    · exact ⟨_, [], rfl, fun hzero => h.ne' (Nat.digitChar_eq_zero.1 hzero)⟩
    · obtain ⟨c, ds, hds, hc⟩ := ih (n / 10) (by omega) (by omega)
      exact ⟨c, ds ++ [(n % 10).digitChar], by rw [← Numeral.ofNat, hds]; rfl, hc⟩

theorem readWhole_ofNat (n : Nat) {rest : List Char} (h : Follows rest) :
    readWhole (Numeral.ofNat n ++ rest) = some (Numeral.ofNat n, rest) := by
  rcases Nat.eq_zero_or_pos n with rfl | hn
  · rfl
  · obtain ⟨c, ds, hds, hc⟩ := exists_ofNat_eq_cons hn
    have hdigits : ∀ x ∈ c :: ds, x.isDigit = true := fun x hx =>
      isDigit_of_mem_ofNat (hds ▸ hx)
    obtain ⟨hcdigit, hdsdigits⟩ := List.forall_mem_cons.1 hdigits
    rw [hds, List.cons_append, readWhole, if_neg hc, if_pos hcdigit, digits_append hdsdigits h]

theorem readFraction_of_follows {rest : List Char} (h : Follows rest) :
    readFraction rest = (none, rest) := by
  cases rest with
  | nil => rfl
  | cons c rest =>
    obtain ⟨-, hpoint, -⟩ := ends_of_follows h
    rw [readFraction, if_neg fun hc => hpoint hc.1]

theorem readExponent_of_follows {rest : List Char} (h : Follows rest) :
    readExponent rest = (none, rest) := by
  cases rest with
  | nil => rfl
  | cons c rest =>
    obtain ⟨-, -, hlower, hupper⟩ := ends_of_follows h
    rw [readExponent]
    exact if_neg fun hc => hc.1.elim hlower hupper

theorem exists_ofNat_eq_digit (n : Nat) : ∃ c ds, Numeral.ofNat n = c :: ds ∧ c.isDigit = true := by
  obtain ⟨c, ds, hds⟩ := List.exists_cons_of_ne_nil (Nat.toDigits_ne_nil (b := 10) (n := n))
  refine ⟨c, ds, hds, isDigit_of_mem_ofNat (n := n) ?_⟩
  rw [Numeral.ofNat, hds]
  exact List.mem_cons_self

theorem exists_ofInt_eq_cons (n : Int) :
    ∃ c s, Numeral.ofInt n = c :: s ∧ (c = '-' ∨ c.isDigit = true) := by
  obtain ⟨c, ds, hds, hc⟩ := exists_ofNat_eq_digit n.natAbs
  unfold Numeral.ofInt
  split_ifs
  · exact ⟨'-', _, rfl, .inl rfl⟩
  · exact ⟨c, ds, hds, .inr hc⟩

theorem readSign_ofInt (n : Int) (rest : List Char) :
    readSign (Numeral.ofInt n ++ rest) = (decide (n < 0), Numeral.ofNat n.natAbs ++ rest) := by
  unfold Numeral.ofInt
  split_ifs with hn
  · rw [decide_eq_true hn]
    rfl
  · rw [decide_eq_false hn]
    unfold readSign
    split
    · next later hlater =>
      -- a numeral begins with a digit
      obtain ⟨c, ds, hds, hc⟩ := exists_ofNat_eq_digit n.natAbs
      rw [hds, List.cons_append] at hlater
      rw [(List.cons.inj hlater).1] at hc
      exact absurd hc (by decide)
    · rfl

/-- **The numeral of an integer is read as the integer.** -/
theorem readNumber_ofInt (n : Int) {rest : List Char} (h : Follows rest) :
    readNumber (Numeral.ofInt n ++ rest) =
      some (⟨decide (n < 0), Numeral.ofNat n.natAbs, none, none⟩, rest) := by
  unfold readNumber
  simp only [readSign_ofInt, readWhole_ofNat _ h, Option.bind_eq_bind, Option.bind_some,
    readFraction_of_follows h, readExponent_of_follows h]
  rfl

theorem value_ofInt (n : Int) :
    NumberParts.value ⟨decide (n < 0), Numeral.ofNat n.natAbs, none, none⟩ = .int n := by
  have hsigned : signed (decide (n < 0)) n.natAbs = n := by
    unfold signed
    split_ifs with hn
    · rw [decide_eq_true_eq] at hn
      omega
    · rw [decide_eq_true_eq] at hn
      omega
  simp only [NumberParts.value, NumberParts.isInteger, Numeral.toNat_ofNat, hsigned,
    Option.isNone_none, Bool.and_self, if_true]

/-! ## Strings -/

theorem hexDigit?_digitChar : ∀ d < 16, hexDigit? (Nat.digitChar d) = some d := by decide

theorem ne_nil_of_readString {opening s r : List Char} {t : Text}
    (h : readString opening s = .ok (t, r)) : s ≠ [] := by
  rintro rfl
  simp [readString] at h

theorem readString_escapeUnit {opening s r : List Char} {t : Text} {n : Nat} (hn : n < 0x10000)
    (h : readString opening s = .ok (t, r)) :
    readString opening (escapeUnit n ++ s) = .ok (.ofNat n :: t, r) := by
  obtain ⟨next, rest, rfl⟩ := List.exists_cons_of_ne_nil (ne_nil_of_readString h)
  have hdigit : ∀ m, hexDigit? (Nat.digitChar (m % 16)) = some (m % 16) := fun m =>
    hexDigit?_digitChar _ (Nat.mod_lt m (by decide))
  have hsum : ((n / 16 / 16 / 16 % 16 * 16 + n / 16 / 16 % 16) * 16 + n / 16 % 16) * 16 + n % 16 =
      n := by omega
  have hcode : hexCode? (Nat.digitChar (n / 16 / 16 / 16 % 16)) (Nat.digitChar (n / 16 / 16 % 16))
      (Nat.digitChar (n / 16 % 16)) (Nat.digitChar (n % 16)) = some (.ofNat n) := by
    simp only [hexCode?, hdigit, Option.bind_eq_bind, Option.bind_some, hsum]
    rfl
  show readString opening ('\\' :: 'u' :: _ :: _ :: _ :: _ :: next :: rest) = _
  rw [readString, if_neg (by decide), if_pos rfl]
  simp only [if_pos, hcode, h]
  rfl

theorem readString_simpleEscape {opening s r : List Char} {t : Text} {e c : Char}
    (he : simpleEscape? e = some c) (h : readString opening s = .ok (t, r)) :
    readString opening ('\\' :: e :: s) = .ok (.ofChar c :: t, r) := by
  have hu : e ≠ 'u' := by
    rintro rfl
    rw [show simpleEscape? 'u' = none from rfl] at he
    cases he
  rw [readString.eq_def]
  simp only [if_neg (show ¬ '\\' = '"' by decide), if_pos, if_neg hu, he, h]
  rfl

/-- The two halves of the pair that stands for a code point beyond U+FFFF. -/
def halves (p : CodePoint) : Text :=
  [.ofNat (0xD800 + (p.val - 0x10000) / 0x400), .ofNat (0xDC00 + (p.val - 0x10000) % 0x400)]

/-- The code points that the reader takes in for one that was written. -/
def units (l : Layout) (p : CodePoint) : Text :=
  if l.asciiOnly = true ∧ 0x10000 ≤ p.val then halves p else [p]

theorem units_of_lt (l : Layout) {p : CodePoint} (h : p.val < 0x10000) : units l p = [p] :=
  if_neg fun hl => absurd hl.2 (Nat.not_le.2 h)

theorem readString_escapeUnit_val {opening s r : List Char} {t : Text} (l : Layout)
    {p : CodePoint} (hp : p.val < 0x10000) (h : readString opening s = .ok (t, r)) :
    readString opening (escapeUnit p.val ++ s) = .ok (units l p ++ t, r) := by
  have hread := readString_escapeUnit hp h
  rw [show CodePoint.ofNat p.val = p from Fin.ofNat_val_eq_self p] at hread
  rw [units_of_lt l hp]
  exact hread

theorem readString_escapeCode {opening s r : List Char} {t : Text} {l : Layout} {p : CodePoint}
    (hl : l.asciiOnly = true) (h : readString opening s = .ok (t, r)) :
    readString opening (escapeCode p ++ s) = .ok (units l p ++ t, r) := by
  have hp := p.isLt
  unfold escapeCode
  split_ifs with hlt
  · exact readString_escapeUnit_val l hlt h
  · rw [units, if_pos ⟨hl, Nat.not_lt.1 hlt⟩, List.append_assoc]
    exact readString_escapeUnit (by omega) (readString_escapeUnit (by omega) h)

/-- A character inside a string is read. -/
theorem readString_writeCode {opening s r : List Char} {t : Text} (l : Layout) {p : CodePoint}
    (hp : p.isSurrogate = false) (h : readString opening s = .ok (t, r)) :
    readString opening (writeCode l p ++ s) = .ok (units l p ++ t, r) := by
  obtain ⟨c, rfl⟩ := CodePoint.exists_eq_ofChar hp
  have hsimple : ∀ {c' e}, c = c' → c'.toNat < 0x10000 → simpleEscape? e = some c' →
      readString opening (['\\', e] ++ s) = .ok (units l (.ofChar c) ++ t, r) := by
    rintro c' e rfl hlt he
    rw [units_of_lt l hlt]
    exact readString_simpleEscape he h
  unfold writeCode
  rw [CodePoint.toChar?_ofChar]
  simp only
  split_ifs with h₁ h₂ h₃ h₄ h₅ h₆ h₇ h₈
  · rcases h₁ with rfl | rfl
    · exact hsimple rfl (by decide) (by decide)
    · exact hsimple rfl (by decide) (by decide)
  · exact hsimple h₂ (by decide) (by decide)
  · exact hsimple h₃ (by decide) (by decide)
  · exact hsimple h₄ (by decide) (by decide)
  · exact hsimple h₅ (by decide) (by decide)
  · exact hsimple h₆ (by decide) (by decide)
  · exact readString_escapeUnit_val l (by omega) h
  · rw [Bool.and_eq_true] at h₈
    exact readString_escapeCode h₈.1 h
  · -- the character stands for itself
    have hunits : units l (.ofChar c) = [.ofChar c] := by
      refine if_neg fun hl => h₈ ?_
      rw [Bool.and_eq_true, decide_eq_true_eq]
      exact ⟨hl.1, by omega⟩
    have hcontrol : ¬ c < ' ' := fun hc => h₇ (Nat.lt_of_lt_of_le hc (by decide))
    obtain ⟨hquote, hbackslash⟩ := not_or.1 h₁
    rw [hunits, List.singleton_append, readString.eq_def]
    simp only [if_neg hquote, if_neg hbackslash, if_neg hcontrol, h]
    rfl

theorem readString_writeCodes {opening rest : List Char} (l : Layout) {t : Text} (ht : t.Proper) :
    readString opening (t.flatMap (writeCode l) ++ '"' :: rest) =
      .ok (t.flatMap (units l), rest) := by
  induction t with
  | nil =>
    show readString opening ('"' :: rest) = _
    rw [readString.eq_def]
    exact if_pos rfl
  | cons p t ih =>
    obtain ⟨hp, ht⟩ := List.forall_mem_cons.1 ht
    rw [List.flatMap_cons, List.flatMap_cons, List.append_assoc]
    exact readString_writeCode l hp (ih ht)

theorem joinSurrogates_cons {p : CodePoint} (hp : p.isSurrogate = false) (t : Text) :
    Text.joinSurrogates (p :: t) = p :: Text.joinSurrogates t := by
  cases t with
  | nil => rfl
  | cons q t =>
    have hhigh : p.isHighSurrogate = false := (Bool.or_eq_false_iff.1 hp).1
    rw [Text.joinSurrogates, hhigh, Bool.false_and, if_neg Bool.false_ne_true]

theorem joinSurrogates_halves {p : CodePoint} (hp : 0x10000 ≤ p.val) (t : Text) :
    Text.joinSurrogates (halves p ++ t) = p :: Text.joinSurrogates t := by
  have hlt := p.isLt
  have hval : ∀ n < 0x110000, (CodePoint.ofNat n).val = n := fun n hn => Nat.mod_eq_of_lt hn
  have hhigh := hval (0xD800 + (p.val - 0x10000) / 0x400) (by omega)
  have hlow := hval (0xDC00 + (p.val - 0x10000) % 0x400) (by omega)
  have hpair : CodePoint.ofSurrogates (.ofNat (0xD800 + (p.val - 0x10000) / 0x400))
      (.ofNat (0xDC00 + (p.val - 0x10000) % 0x400)) = p := by
    apply Fin.ext
    rw [CodePoint.ofSurrogates, hhigh, hlow, hval _ (by omega)]
    omega
  show Text.joinSurrogates (_ :: _ :: t) = _
  rw [Text.joinSurrogates, if_pos, hpair]
  simp only [CodePoint.isHighSurrogate, CodePoint.isLowSurrogate, hhigh, hlow, Bool.and_eq_true,
    decide_eq_true_eq]
  omega

/-- The pairs that the writer makes are joined again, and no others. -/
theorem joinSurrogates_units (l : Layout) {t : Text} (ht : t.Proper) :
    Text.joinSurrogates (t.flatMap (units l)) = t := by
  induction t with
  | nil => rfl
  | cons p t ih =>
    obtain ⟨hp, ht⟩ := List.forall_mem_cons.1 ht
    rw [List.flatMap_cons]
    by_cases hunits : l.asciiOnly = true ∧ 0x10000 ≤ p.val
    · rw [units, if_pos hunits, joinSurrogates_halves hunits.2, ih ht]
    · rw [units, if_neg hunits, List.singleton_append, joinSurrogates_cons hp, ih ht]

/-! ## Readers that succeed -/

/-- A reader finds a value at the front of the text `s` and leaves `rest`. -/
def Finds {α : Type} (read : (s : List Char) → Except Stop (α × Rest s)) (s : List Char) (a : α)
    (rest : List Char) : Prop :=
  ∃ h, read s = .ok (a, ⟨rest, h⟩)

/-- **A written text is read as the text.** -/
theorem readQuoted_writeText (cause : Cause) (l : Layout) {t : Text} (ht : t.Proper)
    (rest : List Char) : Finds (readQuoted cause) (writeText l t ++ rest) t rest := by
  have hread : ∀ opening, readString opening (t.flatMap (writeCode l) ++ ['"'] ++ rest) =
      .ok (t.flatMap (units l), rest) := by
    intro opening
    rw [List.append_assoc]
    exact readString_writeCodes l ht
  show Finds (readQuoted cause) ('"' :: (t.flatMap (writeCode l) ++ ['"'] ++ rest)) t rest
  refine ⟨?_, ?_⟩
  · simp only [List.length_cons, List.length_append]
    omega
  · rw [readQuoted, if_pos rfl]
    split
    · next h => rw [hread] at h; cases h
    · next h =>
      rw [hread] at h
      cases h
      simp only [joinSurrogates_units l ht]

theorem readWord_eq_none {s : List Char} (h : ∀ word ∈ words, ∀ rest, s ≠ word.1 ++ rest) :
    readWord s = none := by
  rw [readWord, List.findSome?_eq_none_iff]
  rintro ⟨word, value⟩ hword
  exact Option.map_eq_none_iff.2 (Option.eq_none_iff_forall_ne_some.2 fun rest hs =>
    h _ hword rest (afterWord_eq_some_iff.1 hs))

/-- No word begins with a quote or a digit, or goes on with a digit after a minus sign. -/
theorem readWord_eq_none_of_head {c : Char} (hc : c = '"' ∨ c.isDigit = true) (s : List Char) :
    readWord (c :: s) = none ∧ readWord ('-' :: c :: s) = none := by
  have hne : c ≠ '-' ∧ c ≠ 'n' ∧ c ≠ 't' ∧ c ≠ 'f' ∧ c ≠ 'N' ∧ c ≠ 'I' := by
    refine ⟨?_, ?_, ?_, ?_, ?_, ?_⟩ <;> rintro rfl <;> exact absurd hc (by decide)
  constructor <;> apply readWord_eq_none <;> simp [words, hne]

theorem finds_of_readWord {s rest : List Char} {value : Json} (limit : Option Nat)
    (h : readWord s = some (value, rest)) : Finds (readScalar limit) s value rest := by
  refine ⟨length_of_readWord h, ?_⟩
  unfold readScalar
  split
  · next value' rest' h' =>
    rw [h] at h'
    cases h'
    rfl
  · next h' =>
    rw [h] at h'
    cases h'

theorem readScalar_of_readWord_eq_none {s : List Char} (limit : Option Nat)
    (h : readWord s = none) :
    readScalar limit s =
      if s.head? = some '"' then (readQuoted .expectedValue s).map fun (t, r) => (.str t, r)
      else readNumberValue limit s := by
  unfold readScalar
  split
  · next h' =>
    rw [h] at h'
    cases h'
  · rfl

theorem finds_str (limit : Option Nat) (l : Layout) {t : Text} (ht : t.Proper)
    (rest : List Char) : Finds (readScalar limit) (writeText l t ++ rest) (.str t) rest := by
  obtain ⟨hlt, h⟩ := readQuoted_writeText .expectedValue l ht rest
  refine ⟨hlt, ?_⟩
  have hword : readWord (writeText l t ++ rest) = none :=
    (readWord_eq_none_of_head (.inl rfl) _).1
  have hquote : (writeText l t ++ rest).head? = some '"' := rfl
  rw [readScalar_of_readWord_eq_none limit hword, if_pos hquote, h]
  rfl

theorem finds_int {limit : Nat} {n : Int} (hn : (Numeral.ofNat n.natAbs).length ≤ limit)
    {rest : List Char} (hrest : Follows rest) :
    Finds (readScalar (some limit)) (Numeral.ofInt n ++ rest) (.int n) rest := by
  have hread := readNumber_ofInt n hrest
  refine ⟨length_of_readNumber hread, ?_⟩
  obtain ⟨c, ds, hds, hc⟩ := exists_ofNat_eq_digit n.natAbs
  have hword : readWord (Numeral.ofInt n ++ rest) = none := by
    rw [Numeral.ofInt, hds]
    split_ifs
    · exact (readWord_eq_none_of_head (.inr hc) _).2
    · exact (readWord_eq_none_of_head (.inr hc) _).1
  have hquote : (Numeral.ofInt n ++ rest).head? ≠ some '"' := by
    obtain ⟨c, s, hs, hc⟩ := exists_ofInt_eq_cons n
    rw [hs, List.cons_append, List.head?_cons, ne_eq, Option.some.injEq]
    rintro rfl
    exact absurd hc (by decide)
  rw [readScalar_of_readWord_eq_none _ hword, if_neg hquote]
  unfold readNumberValue
  split
  · next h' =>
    rw [hread] at h'
    cases h'
  · next h' =>
    rw [hread] at h'
    cases h'
    simp only [value_ofInt, Nat.not_lt.2 hn, and_false, if_false]

end ArchiveIndex.Json
