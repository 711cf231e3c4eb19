import ArchiveIndex.Json.Number

/-!
# Reading JSON

A recursive reader over the characters of a document. Each reader takes what is left of the
text and returns what it read with the shorter rest, so the recursion ends. A fault is reported
by what was left of the text where it lies.

Three things go beyond the standard grammar: `NaN`, `Infinity` and `-Infinity` are numbers, half
a surrogate pair may stand alone in a string, and an integer may not have more digits than a
given limit.
-/

namespace ArchiveIndex.Json

/-- What a document has wrong at a place. -/
inductive Cause
  | byteOrderMark
  | expectedValue
  | expectedName
  | expectedColon
  | expectedComma
  | unterminatedString
  | controlCharacter
  | badEscape
  | badUnicodeEscape
  | extraData
deriving DecidableEq

def Cause.text : Cause → String
  | byteOrderMark => "Unexpected UTF-8 BOM (decode using utf-8-sig)"
  | expectedValue => "Expecting value"
  | expectedName => "Expecting property name enclosed in double quotes"
  | expectedColon => "Expecting ':' delimiter"
  | expectedComma => "Expecting ',' delimiter"
  | unterminatedString => "Unterminated string starting at"
  | controlCharacter => "Invalid control character at"
  | badEscape => "Invalid \\escape"
  | badUnicodeEscape => "Invalid \\uXXXX escape"
  | extraData => "Extra data"

/-- A fault as the reader meets it: at a place, given by the text from there on, or an integer
with too many digits. -/
inductive Stop
  | malformed (cause : Cause) (rest : List Char)
  | tooManyDigits (count limit : Nat)

/-- Why a text is no document. -/
inductive Fault
  | malformed (cause : Cause) (position : Position)
  | tooManyDigits (count limit : Nat)
deriving DecidableEq

def Fault.message : Fault → String
  | malformed cause position => cause.text ++ ": " ++ position.message
  | tooManyDigits count limit =>
    s!"Exceeds the limit ({limit} digits) for integer string conversion: " ++
      s!"value has {count} digits; use sys.set_int_max_str_digits() to increase the limit"

/-! ## Blanks and words -/

/-- The characters that may stand between the parts of a document. -/
def isBlank (c : Char) : Bool := c = ' ' || c = '\t' || c = '\n' || c = '\r'

def skipBlank (s : List Char) : List Char := s.dropWhile isBlank

theorem length_skipBlank_le (s : List Char) : (skipBlank s).length ≤ s.length :=
  (List.dropWhile_sublist _).length_le

/-- The values that are written as a word. -/
def words : List (List Char × Json) :=
  [("null".toList, .null), ("true".toList, .bool true), ("false".toList, .bool false),
    ("NaN".toList, .float .nan), ("Infinity".toList, .float (.infinity false)),
    ("-Infinity".toList, .float (.infinity true))]

/-- What follows `word` in a text that starts with it. -/
def afterWord : List Char → List Char → Option (List Char)
  | [], s => some s
  | _ :: _, [] => none
  | x :: word, c :: s => if x = c then afterWord word s else none

theorem afterWord_eq_some_iff {word s r : List Char} :
    afterWord word s = some r ↔ s = word ++ r := by
  fun_induction afterWord word s <;> simp_all [eq_comm]

/-- The word at the front of a text. -/
def readWord (s : List Char) : Option (Json × List Char) :=
  words.findSome? fun (word, value) => (afterWord word s).map fun rest => (value, rest)

/-- A word takes at least one character. -/
theorem length_of_readWord {s r : List Char} {value : Json}
    (h : readWord s = some (value, r)) : r.length < s.length := by
  obtain ⟨⟨word, v⟩, hw, hs⟩ := List.exists_of_findSome?_eq_some h
  have hp : 0 < word.length := by
    simp [words] at hw
    rcases hw with ⟨rfl, -⟩ | ⟨rfl, -⟩ | ⟨rfl, -⟩ | ⟨rfl, -⟩ | ⟨rfl, -⟩ | ⟨rfl, -⟩ <;> decide
  obtain ⟨rest, hr, he⟩ := Option.map_eq_some_iff.1 hs
  simp only [Prod.mk.injEq] at he
  simp [afterWord_eq_some_iff.1 hr, ← he.2, hp]

/-! ## Strings -/

/-- The value of a hexadecimal digit. -/
def hexDigit? (c : Char) : Option Nat :=
  if c.isDigit then some (c.toNat - '0'.toNat)
  else if 'a' ≤ c ∧ c ≤ 'f' then some (c.toNat - 'a'.toNat + 10)
  else if 'A' ≤ c ∧ c ≤ 'F' then some (c.toNat - 'A'.toNat + 10)
  else none

/-- The code point that four hexadecimal digits give. -/
def hexCode? (a b c d : Char) : Option CodePoint := do
  let a ← hexDigit? a
  let b ← hexDigit? b
  let c ← hexDigit? c
  let d ← hexDigit? d
  return .ofNat (((a * 16 + b) * 16 + c) * 16 + d)

/-- The character that a letter stands for after a backslash. -/
def simpleEscape? (c : Char) : Option Char :=
  if c = '"' ∨ c = '\\' ∨ c = '/' then some c
  else if c = 'b' then some '\x08'
  else if c = 'f' then some '\x0c'
  else if c = 'n' then some '\n'
  else if c = 'r' then some '\r'
  else if c = 't' then some '\t'
  else none

/-- Puts a code point in front of a string that was read. -/
def consCode (p : CodePoint) (read : Except Stop (Text × List Char)) :
    Except Stop (Text × List Char) :=
  read.map fun (t, rest) => (p :: t, rest)

/-- The code points up to the closing quote, escapes replaced. `opening` is the text from the
opening quote on, where a string without an end is reported. Four hexadecimal digits must not be
the end of the text. -/
def readString (opening : List Char) : List Char → Except Stop (Text × List Char)
  | [] => .error (.malformed .unterminatedString opening)
  | c :: rest =>
    if c = '"' then .ok ([], rest)
    else if c = '\\' then
      match rest with
      | [] => .error (.malformed .unterminatedString opening)
      | e :: rest' =>
        if e = 'u' then
          match rest' with
          | h₁ :: h₂ :: h₃ :: h₄ :: next :: rest'' =>
            match hexCode? h₁ h₂ h₃ h₄ with
            | some p => consCode p (readString opening (next :: rest''))
            | none => .error (.malformed .badUnicodeEscape rest)
          | _ => .error (.malformed .badUnicodeEscape rest)
        else
          match simpleEscape? e with
          | some x => consCode (.ofChar x) (readString opening rest')
          | none => .error (.malformed .badEscape (c :: rest))
    else if c < ' ' then .error (.malformed .controlCharacter (c :: rest))
    else consCode (.ofChar c) (readString opening rest)

theorem eq_ok_of_consCode {p : CodePoint} {read : Except Stop (Text × List Char)} {t : Text}
    {r : List Char} (h : consCode p read = .ok (t, r)) : ∃ t', read = .ok (t', r) := by
  cases read with
  | error _ => simp [consCode, Except.map] at h
  | ok found =>
    obtain ⟨t', r'⟩ := found
    simp [consCode, Except.map] at h
    exact ⟨t', by rw [h.2]⟩

/-- A string ends before the text does, with its closing quote. -/
theorem length_of_readString {opening s r : List Char} {t : Text}
    (h : readString opening s = .ok (t, r)) : r.length < s.length := by
  fun_induction readString opening s generalizing t with
  | case1 => simp at h
  | case2 => simp_all
  | case3 => simp at h
  | case4 _ _ _ _ _ _ _ _ _ ih =>
    obtain ⟨t', h'⟩ := eq_ok_of_consCode h
    have := ih h'
    simp only [List.length_cons] at this ⊢
    omega
  | case5 => simp at h
  | case6 => simp at h
  | case7 _ _ _ _ _ _ ih =>
    obtain ⟨t', h'⟩ := eq_ok_of_consCode h
    have := ih h'
    simp only [List.length_cons]
    omega
  | case8 => simp at h
  | case9 => simp at h
  | case10 _ _ _ _ _ ih =>
    obtain ⟨t', h'⟩ := eq_ok_of_consCode h
    have := ih h'
    simp only [List.length_cons]
    omega

/-! ## Values -/

/-- Takes a character that has to come next. -/
def expect (wanted : Char) (cause : Cause) (s : List Char) : Except Stop (Rest s) :=
  match s with
  | [] => .error (.malformed cause [])
  | c :: rest =>
    if c = wanted then .ok ⟨rest, Nat.lt_succ_self _⟩ else .error (.malformed cause (c :: rest))

/-- A number at the front of a text, unless it is an integer with too many digits. -/
def readNumberValue (limit : Option Nat) (s : List Char) : Except Stop (Json × Rest s) :=
  match h : readNumber s with
  | none => .error (.malformed .expectedValue s)
  | some (parts, rest) =>
    let count := parts.whole.length
    match limit with
    | some most =>
      if parts.isInteger ∧ most < count then .error (.tooManyDigits count most)
      else .ok (parts.value, ⟨rest, length_of_readNumber h⟩)
    | none => .ok (parts.value, ⟨rest, length_of_readNumber h⟩)

/-- A string at the front of a text, which starts with its opening quote. -/
def readQuoted (cause : Cause) (s : List Char) : Except Stop (Text × Rest s) :=
  match s with
  | [] => .error (.malformed cause [])
  | c :: rest =>
    if c = '"' then
      match h : readString (c :: rest) rest with
      | .error stop => .error stop
      | .ok (t, r) =>
        .ok (Text.joinSurrogates t, ⟨r, Nat.lt_succ_of_lt (length_of_readString h)⟩)
    else .error (.malformed cause (c :: rest))

/-- A value that is no list and no object. -/
def readScalar (limit : Option Nat) (s : List Char) : Except Stop (Json × Rest s) :=
  match h : readWord s with
  | some (value, rest) => .ok (value, ⟨rest, length_of_readWord h⟩)
  | none =>
    if s.head? = some '"' then (readQuoted .expectedValue s).map fun (t, r) => (.str t, r)
    else readNumberValue limit s

mutual

/-- The value at the front of a text. -/
def readValue (limit : Option Nat) (s : List Char) : Except Stop (Json × Rest s) :=
  match s with
  | [] => .error (.malformed .expectedValue [])
  | c :: rest =>
    have := length_skipBlank_le rest
    let inner := skipBlank rest
    if c = '[' then
      if inner.head? = some ']' then .ok (.arr [], ⟨inner.tail, by grind⟩)
      else do
        let (items, r) ← readItems limit inner
        return (.arr items, ⟨r.1, by grind⟩)
    else if c = '\x7b' then
      if inner.head? = some '\x7d' then .ok (.obj [], ⟨inner.tail, by grind⟩)
      else do
        let (fields, r) ← readFields limit inner
        return (.obj (ofFields fields), ⟨r.1, by grind⟩)
    else readScalar limit (c :: rest)
termination_by (s.length, 0)

/-- The values of a list that is not empty, up to its closing bracket. -/
def readItems (limit : Option Nat) (s : List Char) : Except Stop (List Json × Rest s) := do
  let (value, r) ← readValue limit s
  have := length_skipBlank_le r.1
  let after := skipBlank r.1
  if after.head? = some ']' then
    return ([value], ⟨after.tail, by grind⟩)
  else
    let r ← expect ',' .expectedComma after
    have := length_skipBlank_le r.1
    let (values, r) ← readItems limit (skipBlank r.1)
    return (value :: values, ⟨r.1, by grind⟩)
termination_by (s.length, 1)
decreasing_by all_goals simp only [Prod.lex_def]; grind

/-- The fields of an object that is not empty, up to its closing brace. -/
def readFields (limit : Option Nat) (s : List Char) :
    Except Stop (List (Text × Json) × Rest s) := do
  let (name, r) ← readQuoted .expectedName s
  have := length_skipBlank_le r.1
  let r ← expect ':' .expectedColon (skipBlank r.1)
  have := length_skipBlank_le r.1
  let (value, r) ← readValue limit (skipBlank r.1)
  have := length_skipBlank_le r.1
  let after := skipBlank r.1
  if after.head? = some '\x7d' then
    return ([(name, value)], ⟨after.tail, by grind⟩)
  else
    let r ← expect ',' .expectedComma after
    have := length_skipBlank_le r.1
    let (fields, r) ← readFields limit (skipBlank r.1)
    return ((name, value) :: fields, ⟨r.1, by grind⟩)
termination_by (s.length, 1)
decreasing_by all_goals simp only [Prod.lex_def]; grind

end

/-! ## Documents -/

/-- The value that a whole text is, with nothing but blanks around it. -/
def readDocument (limit : Option Nat) (s : List Char) : Except Stop Json := do
  if s.head? = some '\uFEFF' then throw (.malformed .byteOrderMark s)
  let (value, r) ← readValue limit (skipBlank s)
  let after := skipBlank r.1
  if after = [] then return value else throw (.malformed .extraData after)

/-- Reads a document. With a limit, no integer may have more digits than that. -/
def read (limit : Option Nat) (text : List Char) : Except Fault Json :=
  (readDocument limit text).mapError fun
    | .malformed cause rest => .malformed cause (.ofRest text rest)
    | .tooManyDigits count limit => .tooManyDigits count limit

end ArchiveIndex.Json
