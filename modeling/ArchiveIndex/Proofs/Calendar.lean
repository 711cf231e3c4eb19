import Mathlib.Data.List.Lex
import ArchiveIndex.Entry

/-!
# The calendar is exact

A modification time is given to a caller as a date and a time of day. Here the conversion is
compared with the calendar itself, in which a date-time lies at a distance from the epoch.

**Theorem (`mtime_exact`).** A modification time has a date-time exactly from the first instant of
year 1 to the last nanosecond of year 9999. It is the one valid date-time whose distance from the
epoch is the time rounded down to microseconds, and later times have later date-times.

Two facts about the numbers of days carry the proof. Cycles, years and months are told apart by what
is left of a number (`exists_ofOrdinal_eq`, `monthAndDay_spec`), so the date that is found for a
number has that number (`ordinal_ofOrdinal`). And a later date has a greater number (`ordinal_lt`):
each year and each month adds its own days to those before it, so what comes before a year or a
month counts all of the one that precedes it.
-/

namespace ArchiveIndex

namespace Date

/-! ## Days before a year -/

/-- The number of days in a year. -/
def yearLength (leap : Bool) : Nat := if leap then 366 else 365

theorem isLeap_iff (year : Nat) :
    isLeap year = true ↔ year % 4 = 0 ∧ (year % 100 ≠ 0 ∨ year % 400 = 0) := by
  simp [isLeap]

theorem daysBeforeYear_eq (past : Nat) :
    daysBeforeYear (past + 1) = 365 * past + past / 4 - past / 100 + past / 400 := rfl

theorem succ_div_eq (n k : Nat) : (n + 1) / k = n / k + if (n + 1) % k = 0 then 1 else 0 := by
  rw [Nat.succ_div]
  simp only [Nat.dvd_iff_mod_eq_zero]

/-- A year adds its own days. -/
theorem daysBeforeYear_succ {year : Nat} (h : 1 ≤ year) :
    daysBeforeYear (year + 1) = daysBeforeYear year + yearLength (isLeap year) := by
  obtain ⟨past, rfl⟩ : ∃ past, year = past + 1 := ⟨year - 1, by omega⟩
  have hpast : past / 100 ≤ past := Nat.div_le_self past 100
  have h₁₀₀ : (past + 1) % 100 = 0 → (past + 1) % 4 = 0 := by omega
  have h₄₀₀ : (past + 1) % 400 = 0 → (past + 1) % 100 = 0 := by omega
  have hleap := isLeap_iff (past + 1)
  rw [daysBeforeYear_eq, daysBeforeYear_eq, yearLength, succ_div_eq past 4, succ_div_eq past 100,
    succ_div_eq past 400]
  generalize past / 4 = fours, past / 100 = centuries, past / 400 = cycles at *
  by_cases h : isLeap (past + 1) = true
  · rw [if_pos h]
    have := hleap.1 h
    split_ifs <;> omega
  · rw [if_neg h]
    have := mt hleap.2 h
    split_ifs <;> omega

theorem daysBeforeYear_mono {year year' : Nat} (h₁ : 1 ≤ year) (h : year ≤ year') :
    daysBeforeYear year ≤ daysBeforeYear year' := by
  induction year', h using Nat.le_induction with
  | base => exact Nat.le_refl _
  | succ year' hle ih =>
    rw [daysBeforeYear_succ (h₁.trans hle)]
    exact ih.trans (Nat.le_add_right _ _)

/-- The years of whole cycles, centuries and so on have the days of these. -/
theorem daysBeforeYear_cycles (cycles : Nat) {centuries fours ones : Nat}
    (hcenturies : centuries ≤ 3) (hfours : fours ≤ 24) (hones : ones ≤ 3) :
    daysBeforeYear (400 * cycles + 100 * centuries + 4 * fours + ones + 1) =
      146097 * cycles + 36524 * centuries + 1461 * fours + 365 * ones := by
  rw [daysBeforeYear_eq]
  omega

/-- The last of four years is a leap year, unless it is the last of a century too, and that is not
the last of a cycle. -/
theorem isLeap_last (cycles : Nat) {centuries fours : Nat} (hfours : fours ≤ 24)
    (h : fours < 24 ∨ centuries = 3) :
    isLeap (400 * cycles + 100 * centuries + 4 * fours + 3 + 1) = true := by
  rw [isLeap_iff]
  omega

/-! ## Days before a month -/

/-- The number of days in a month. -/
def monthLength (leap : Bool) (month : Nat) : Nat := (monthLengths leap).getD (month - 1) 0

/-- A month adds its own days. -/
theorem daysBeforeMonth_succ (leap : Bool) {month : Nat} (h₁ : 1 ≤ month) (h₁₂ : month ≤ 12) :
    daysBeforeMonth leap (month + 1) = daysBeforeMonth leap month + monthLength leap month := by
  decide +revert

theorem daysBeforeMonth_mono (leap : Bool) {month month' : Nat} (h₁ : 1 ≤ month)
    (h : month ≤ month') (h₁₃ : month' ≤ 13) :
    daysBeforeMonth leap month ≤ daysBeforeMonth leap month' := by
  induction month', h using Nat.le_induction with
  | base => exact Nat.le_refl _
  | succ month' hle ih =>
    rw [daysBeforeMonth_succ leap (h₁.trans hle) (by omega)]
    exact (ih (by omega)).trans (Nat.le_add_right _ _)

/-- Before the month after the last lies the whole year. -/
theorem daysBeforeMonth_end (leap : Bool) : daysBeforeMonth leap 13 = yearLength leap := by
  cases leap <;> rfl

/-- A day that falls in a run of months falls in one of them. The days of the months before that
one, and those up to the day in it, are the days up to the day in the run. -/
theorem monthAndDay_spec (month : Nat) {lengths : List Nat} {n : Nat}
    (h : n < lengths.foldl (· + ·) 0) :
    ∃ k < lengths.length, ∃ day, monthAndDay month lengths n = (month + k, day) ∧
      1 ≤ day ∧ day ≤ lengths.getD k 0 ∧ (lengths.take k).foldl (· + ·) 0 + day = n + 1 := by
  induction lengths generalizing month n with
  | nil => exact absurd h (Nat.not_lt_zero n)
  | cons length rest ih =>
    have hsum : ∀ days : List Nat,
        (length :: days).foldl (· + ·) 0 = length + days.foldl (· + ·) 0 := fun days => by
      rw [List.foldl_cons, Nat.add_comm 0 length, List.foldl_assoc]
    rw [hsum] at h
    unfold monthAndDay
    by_cases hn : n < length
    · rw [if_pos hn]
      exact ⟨0, Nat.zero_lt_succ _, n + 1, rfl, Nat.succ_pos n, hn, Nat.zero_add _⟩
    · rw [if_neg hn]
      obtain ⟨k, hk, day, heq, hpos, hle, hdays⟩ := ih (month + 1) (n := n - length) (by omega)
      refine ⟨k + 1, Nat.succ_lt_succ hk, day, ?_, hpos, hle, ?_⟩
      · rw [heq, Nat.add_assoc, Nat.add_comm 1 k]
      · rw [List.take_succ_cons, hsum]
        omega

/-! ## The date of a number -/

/-- The date of a day of a year; days here count from 0. -/
def ofDayOfYear (year n : Nat) : Date :=
  let (month, day) := monthAndDay 1 (monthLengths (isLeap year)) n
  ⟨year, month, day⟩

theorem ofDayOfYear_spec {year n : Nat} (h : n < yearLength (isLeap year)) :
    ∃ month day, ofDayOfYear year n = ⟨year, month, day⟩ ∧ 1 ≤ month ∧ month ≤ 12 ∧ 1 ≤ day ∧
      day ≤ monthLength (isLeap year) month ∧
      daysBeforeMonth (isLeap year) month + day = n + 1 := by
  have hlengths : (monthLengths (isLeap year)).foldl (· + ·) 0 = yearLength (isLeap year) :=
    daysBeforeMonth_end (isLeap year)
  rw [← hlengths] at h
  obtain ⟨k, hk, day, heq, hpos, hle, hdays⟩ := monthAndDay_spec 1 h
  have hk : k < 12 := hk
  refine ⟨1 + k, day, ?_, by omega, by omega, hpos, ?_, ?_⟩
  · rw [ofDayOfYear, heq]
  · rwa [monthLength, Nat.add_sub_cancel_left]
  · rwa [daysBeforeMonth, Nat.add_sub_cancel_left]

/-- At most three parts of one width are cut off, and a whole part is left only after three. -/
theorem min_div_spec (n width : Nat) (h : 0 < width) :
    min 3 (n / width) * width ≤ n ∧ min 3 (n / width) ≤ 3 ∧
      (n < (min 3 (n / width) + 1) * width ∨ min 3 (n / width) = 3) := by
  have hle : n / width * width ≤ n := Nat.div_mul_le_self n width
  have hlt : n < (n / width + 1) * width := (Nat.div_lt_iff_lt_mul h).1 (Nat.lt_succ_self _)
  rcases Nat.le_total (n / width) 3 with h | h
  · rw [Nat.min_eq_right h]
    exact ⟨hle, h, .inl hlt⟩
  · rw [Nat.min_eq_left h]
    exact ⟨(Nat.mul_le_mul_right width h).trans hle, Nat.le_refl 3, .inr rfl⟩

/-- Peeling off cycles leads to a year and a day of that year. -/
theorem exists_ofOrdinal_eq (n : Nat) :
    ∃ year day, ofOrdinal n = ofDayOfYear year day ∧ 1 ≤ year ∧
      day < yearLength (isLeap year) ∧ daysBeforeYear year + day = n - 1 := by
  have hcycles := Nat.div_add_mod (n - 1) 146097
  have hinCycle : (n - 1) % 146097 < 146097 := Nat.mod_lt _ (by decide)
  refine ⟨_, _, rfl, ?_⟩
  generalize (n - 1) / 146097 = cycles, (n - 1) % 146097 = inCycle at *
  have hcenturies := min_div_spec inCycle 36524 (by decide)
  generalize min 3 (inCycle / 36524) = centuries at *
  obtain ⟨inCentury, hinCentury⟩ : ∃ m, inCycle - centuries * 36524 = m := ⟨_, rfl⟩
  have hfours := Nat.div_add_mod inCentury 1461
  have hinFours : inCentury % 1461 < 1461 := Nat.mod_lt _ (by decide)
  rw [hinCentury]
  generalize inCentury / 1461 = fours, inCentury % 1461 = inFours at *
  have hones := min_div_spec inFours 365 (by decide)
  generalize min 3 (inFours / 365) = ones at *
  obtain ⟨day, hday⟩ : ∃ m, inFours - ones * 365 = m := ⟨_, rfl⟩
  rw [hday]
  have hfour : fours ≤ 24 := by omega
  refine ⟨by omega, ?_, ?_⟩
  · unfold yearLength
    by_cases hlast : ones = 3 ∧ (fours < 24 ∨ centuries = 3)
    · obtain ⟨rfl, hlast⟩ := hlast
      rw [if_pos (isLeap_last cycles hfour hlast)]
      omega
    · -- Day 365 comes only in the last of four years, and not in that of a short century.
      have hday : day < 365 := by omega
      split <;> omega
  · rw [daysBeforeYear_cycles cycles hcenturies.2.1 hfour hones.2.1]
    omega

/-- The date that is found for a number has that number, and is one that the calendar has. -/
theorem ordinal_ofOrdinal {n : Nat} (h₁ : 1 ≤ n) (hlast : n ≤ lastOrdinal) :
    (ofOrdinal n).ordinal = n ∧ (ofOrdinal n).Valid := by
  obtain ⟨year, m, heq, hyear, hm, hdays⟩ := exists_ofOrdinal_eq n
  obtain ⟨month, day, hdate, hmonth₁, hmonth₁₂, hday₁, hday, hdays'⟩ := ofDayOfYear_spec hm
  have hyear' : year ≤ 9999 := by
    by_contra hgt
    have hmono : daysBeforeYear 10000 ≤ daysBeforeYear year :=
      daysBeforeYear_mono (by decide) (by omega)
    have hend : daysBeforeYear 10000 = lastOrdinal := by decide
    omega
  rw [heq, hdate]
  refine ⟨?_, hyear, hyear', hmonth₁, hmonth₁₂, hday₁, hday⟩
  show daysBeforeYear year + daysBeforeMonth (isLeap year) month + day = n
  omega

/-! ## The order of dates -/

section Order

variable {d d' : Date}

theorem ordinal_le_succ_month (h : d.Valid) :
    d.ordinal ≤ daysBeforeYear d.year + daysBeforeMonth (isLeap d.year) (d.month + 1) := by
  obtain ⟨-, -, hmonth₁, hmonth₁₂, -, hday⟩ := h
  have hday : d.day ≤ monthLength (isLeap d.year) d.month := hday
  rw [daysBeforeMonth_succ _ hmonth₁ hmonth₁₂]
  unfold ordinal
  omega

theorem ordinal_le_succ_year (h : d.Valid) : d.ordinal ≤ daysBeforeYear (d.year + 1) := by
  have hmonth := ordinal_le_succ_month h
  obtain ⟨hyear, -, -, hmonth₁₂, -, -⟩ := h
  have hmono : daysBeforeMonth (isLeap d.year) (d.month + 1) ≤ daysBeforeMonth (isLeap d.year) 13 :=
    daysBeforeMonth_mono (isLeap d.year) (by omega) (by omega) (by omega)
  rw [daysBeforeMonth_end] at hmono
  rw [daysBeforeYear_succ hyear]
  omega

/-- A later date has a greater number. -/
theorem ordinal_lt (hd : d.Valid) (hd' : d'.Valid)
    (h : d.year < d'.year ∨ d.year = d'.year ∧
      (d.month < d'.month ∨ d.month = d'.month ∧ d.day < d'.day)) :
    d.ordinal < d'.ordinal := by
  have hyear := ordinal_le_succ_year hd
  have hmonth := ordinal_le_succ_month hd
  obtain ⟨-, -, -, hmonth₁₂, hday, -⟩ := hd'
  rcases h with h | ⟨h, h' | ⟨h', hlt⟩⟩
  · have hmono : daysBeforeYear (d.year + 1) ≤ daysBeforeYear d'.year :=
      daysBeforeYear_mono (by omega) h
    unfold ordinal at *
    omega
  · have hmono : daysBeforeMonth (isLeap d.year) (d.month + 1) ≤
        daysBeforeMonth (isLeap d.year) d'.month :=
      daysBeforeMonth_mono (isLeap d.year) (by omega) h' (by omega)
    unfold ordinal at *
    rw [← h]
    omega
  · unfold ordinal
    rw [← h, ← h']
    omega

theorem one_le_ordinal (h : d.Valid) : 1 ≤ d.ordinal := by
  obtain ⟨-, -, -, -, hday, -⟩ := h
  unfold ordinal
  omega

theorem ordinal_le_last (h : d.Valid) : d.ordinal ≤ lastOrdinal := by
  have hmono : daysBeforeYear (d.year + 1) ≤ daysBeforeYear 10000 :=
    daysBeforeYear_mono (by omega) (by have := h.2.1; omega)
  exact (ordinal_le_succ_year h).trans (hmono.trans (by decide))

end Order

end Date

namespace DateTime

variable {d d' : DateTime}

/-! ## The order of date-times -/

/-- A date-time of the calendar, whose days have 24 hours without leap seconds. -/
structure Valid (d : DateTime) : Prop where
  date : d.toDate.Valid
  hour : d.hour < 24
  minute : d.minute < 60
  second : d.second < 60
  microsecond : d.microsecond < 1000000

/-- The fields of a date-time, which are compared from the first to the last. -/
def fields (d : DateTime) : List Nat :=
  [d.year, d.month, d.day, d.hour, d.minute, d.second, d.microsecond]

theorem eq_of_fields_eq (h : d.fields = d'.fields) : d = d' := by
  obtain ⟨⟨_, _, _⟩, _, _, _, _⟩ := d
  obtain ⟨⟨_, _, _⟩, _, _, _, _⟩ := d'
  simp only [fields, List.cons.injEq, and_true] at h
  obtain ⟨rfl, rfl, rfl, rfl, rfl, rfl, rfl⟩ := h
  rfl

/-- A later date-time lies farther from the epoch, towards the future. -/
theorem microseconds_lt (hd : d.Valid) (hd' : d'.Valid) (h : d.fields < d'.fields) :
    d.microseconds < d'.microseconds := by
  obtain ⟨hdate, hhour, hminute, hsecond, hmicrosecond⟩ := hd
  obtain ⟨hdate', -, hminute', hsecond', hmicrosecond'⟩ := hd'
  simp only [fields, List.cons_lt_cons_iff, List.lt_irrefl, and_false, or_false] at h
  unfold microseconds microsecondsPerDay
  -- Either the dates differ, or they are the same and the times of day decide.
  have hordinal : d.ordinal < d'.ordinal ∨ d.ordinal = d'.ordinal ∧
      (d.hour < d'.hour ∨ d.hour = d'.hour ∧ (d.minute < d'.minute ∨ d.minute = d'.minute ∧
        (d.second < d'.second ∨ d.second = d'.second ∧ d.microsecond < d'.microsecond))) := by
    rcases h with h | ⟨hyear, h | ⟨hmonth, h | ⟨hday, h⟩⟩⟩
    · exact .inl (Date.ordinal_lt hdate hdate' (.inl h))
    · exact .inl (Date.ordinal_lt hdate hdate' (.inr ⟨hyear, .inl h⟩))
    · exact .inl (Date.ordinal_lt hdate hdate' (.inr ⟨hyear, .inr ⟨hmonth, h⟩⟩))
    · refine .inr ⟨?_, h⟩
      unfold Date.ordinal
      rw [hyear, hmonth, hday]
  omega

theorem microseconds_lt_iff (hd : d.Valid) (hd' : d'.Valid) :
    d.microseconds < d'.microseconds ↔ d.fields < d'.fields := by
  refine ⟨fun h => ?_, microseconds_lt hd hd'⟩
  rcases lt_trichotomy d.fields d'.fields with hlt | heq | hgt
  · exact hlt
  · rw [eq_of_fields_eq heq] at h
    exact absurd h (Int.lt_irrefl _)
  · exact absurd (microseconds_lt hd' hd hgt) (Int.lt_asymm h)

/-- Of valid date-times only one lies at a distance. -/
theorem eq_of_microseconds_eq (hd : d.Valid) (hd' : d'.Valid)
    (h : d.microseconds = d'.microseconds) : d = d' := by
  apply eq_of_fields_eq
  apply le_antisymm
  · rw [← not_lt, ← microseconds_lt_iff hd' hd]
    exact Int.not_lt.2 (Int.le_of_eq h)
  · rw [← not_lt, ← microseconds_lt_iff hd hd']
    exact Int.not_lt.2 (Int.le_of_eq h.symm)

/-! ## The date-time at a distance -/

/-- The time of day splits what is left of a day into hours, minutes, seconds and microseconds. -/
theorem atTime_spec {date : Date} (hdate : date.Valid) {t : Nat} (ht : t < microsecondsPerDay) :
    (atTime date t).Valid ∧ (atTime date t).microseconds =
      ((date.ordinal : Int) - Date.epoch) * microsecondsPerDay + t := by
  unfold microsecondsPerDay at ht
  refine ⟨⟨hdate, ?_, ?_, ?_, ?_⟩, ?_⟩
  · show t / 3600000000 < 24
    omega
  · exact Nat.mod_lt _ (by decide)
  · exact Nat.mod_lt _ (by decide)
  · exact Nat.mod_lt _ (by decide)
  · have htime : ((t / 3600000000 * 60 + t / 60000000 % 60) * 60 + t / 1000000 % 60) * 1000000 +
        t % 1000000 = t := by omega
    show ((date.ordinal : Int) - Date.epoch) * microsecondsPerDay +
      (((t / 3600000000 * 60 + t / 60000000 % 60) * 60 + t / 1000000 % 60) * 1000000 +
        t % 1000000 : Nat) = _
    rw [htime]

/-- The first instant of year 1. -/
def firstMicrosecond : Int := -62135596800000000

/-- The first instant after year 9999. -/
def endMicrosecond : Int := 253402300800000000

/-- Exactly the instants within the calendar have a date-time. -/
theorem exists_ofMicroseconds_iff (us : Int) :
    (∃ d, ofMicroseconds us = .ok d) ↔ firstMicrosecond ≤ us ∧ us < endMicrosecond := by
  have hepoch : (Date.epoch : Int) = 719163 := by decide
  have hlast : (Date.lastOrdinal : Int) = 3652059 := by decide
  have hday : (microsecondsPerDay : Int) = 86400000000 := rfl
  unfold ofMicroseconds firstMicrosecond endMicrosecond
  simp only [hepoch, hlast, hday]
  split_ifs <;> simp only [exists_false, false_iff, Except.ok.injEq, exists_eq', true_iff] <;> omega

/-- What an instant is turned into is valid and lies at its distance. -/
theorem ofMicroseconds_spec {us : Int} (h : ofMicroseconds us = .ok d) :
    d.Valid ∧ d.microseconds = us := by
  have hday : (microsecondsPerDay : Int) = 86400000000 := rfl
  simp only [ofMicroseconds, hday] at h
  split_ifs at h with hword hspan hyear
  obtain ⟨n, hn⟩ : ∃ n : Nat, (n : Int) = us / 86400000000 + Date.epoch :=
    ⟨(us / 86400000000 + Date.epoch).toNat, by omega⟩
  obtain ⟨t, ht⟩ : ∃ t : Nat, (t : Int) = us % 86400000000 :=
    ⟨(us % 86400000000).toNat, by omega⟩
  rw [← hn] at h hyear
  rw [← ht] at h
  have hn₁ : 1 ≤ n ∧ n ≤ Date.lastOrdinal := by omega
  have ht₁ : t < microsecondsPerDay := by
    unfold microsecondsPerDay
    omega
  obtain ⟨hordinal, hdate⟩ := Date.ordinal_ofOrdinal hn₁.1 hn₁.2
  obtain ⟨hvalid, hmicroseconds⟩ := atTime_spec hdate ht₁
  obtain rfl : atTime (.ofOrdinal n) t = d := Except.ok.inj h
  refine ⟨hvalid, ?_⟩
  rw [hmicroseconds, hordinal, hday, hn, ht]
  omega

theorem microseconds_bounds (h : d.Valid) :
    firstMicrosecond ≤ d.microseconds ∧ d.microseconds < endMicrosecond := by
  have hepoch : (Date.epoch : Int) = 719163 := by decide
  have hlast : Date.lastOrdinal = 3652059 := by decide
  have hone := Date.one_le_ordinal h.date
  have hle := Date.ordinal_le_last h.date
  obtain ⟨-, hhour, hminute, hsecond, hmicrosecond⟩ := h
  unfold microseconds microsecondsPerDay firstMicrosecond endMicrosecond
  omega

/-- The date-time of an instant is the valid one at its distance from the epoch. -/
theorem ofMicroseconds_eq_ok_iff (us : Int) :
    ofMicroseconds us = .ok d ↔ d.Valid ∧ d.microseconds = us := by
  refine ⟨ofMicroseconds_spec, ?_⟩
  rintro ⟨hd, rfl⟩
  obtain ⟨d', hd'⟩ := (exists_ofMicroseconds_iff d.microseconds).2 (microseconds_bounds hd)
  obtain ⟨hvalid, hmicroseconds⟩ := ofMicroseconds_spec hd'
  rw [hd', eq_of_microseconds_eq hvalid hd hmicroseconds]

end DateTime

namespace Header

/-- **The calendar is exact.** A modification time has a date-time exactly from the first instant
of year 1 to the last nanosecond of year 9999, counted in nanoseconds from the epoch. It is the one
valid date-time whose distance from the epoch, in microseconds, is the time divided by 1000 and
rounded down. No earlier time has a later date-time. -/
theorem mtime_exact (h : Header) :
    ((∃ d, h.mtime = .ok d) ↔
      -62135596800 * 1000000000 ≤ h.mtimeNs ∧ h.mtimeNs < 253402300800 * 1000000000) ∧
    (∀ d, h.mtime = .ok d ↔ d.Valid ∧ d.microseconds = h.mtimeNs / 1000) ∧
    ∀ (later : Header) (d d' : DateTime), h.mtimeNs ≤ later.mtimeNs →
      h.mtime = .ok d → later.mtime = .ok d' → d.fields ≤ d'.fields := by
  refine ⟨?_, fun d => DateTime.ofMicroseconds_eq_ok_iff _, fun later d d' hle hd hd' => ?_⟩
  · rw [mtime, DateTime.exists_ofMicroseconds_iff]
    unfold DateTime.firstMicrosecond DateTime.endMicrosecond
    omega
  · obtain ⟨hvalid, hmicroseconds⟩ := DateTime.ofMicroseconds_spec hd
    obtain ⟨hvalid', hmicroseconds'⟩ := DateTime.ofMicroseconds_spec hd'
    rw [← not_lt, ← DateTime.microseconds_lt_iff hvalid' hvalid]
    omega

/-- A header of a file that was modified at the given time. -/
def modifiedAt (mtimeNs : Int) : Header where
  name := "clock"
  mtimeNs
  mode := 0
  flag := 0
  name_ne := by decide

/-- The last nanosecond before the epoch, and an instant on a leap day that only every fourth
century has at its beginning. -/
theorem mtime_exact_across_epoch :
    ∃ d d', (modifiedAt (-1)).mtime = .ok d ∧ (modifiedAt 951827696123456789).mtime = .ok d' ∧
      d.fields = [1969, 12, 31, 23, 59, 59, 999999] ∧
      d'.fields = [2000, 2, 29, 12, 34, 56, 123456] ∧ d.fields ≤ d'.fields := by
  obtain ⟨-, hbefore, hmono⟩ := mtime_exact (modifiedAt (-1))
  obtain ⟨-, hafter, -⟩ := mtime_exact (modifiedAt 951827696123456789)
  have hd := (hbefore ⟨⟨1969, 12, 31⟩, 23, 59, 59, 999999⟩).2
    ⟨⟨by decide, by decide, by decide, by decide, by decide⟩, by decide⟩
  have hd' := (hafter ⟨⟨2000, 2, 29⟩, 12, 34, 56, 123456⟩).2
    ⟨⟨by decide, by decide, by decide, by decide, by decide⟩, by decide⟩
  exact ⟨_, _, hd, hd', rfl, rfl, hmono _ _ _ (by decide) hd hd'⟩

end Header
end ArchiveIndex
