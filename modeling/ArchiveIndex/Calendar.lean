/-!
# Calendar Time

Instants are counted in microseconds from 1970-01-01T00:00:00, and written as a date and a time
of day of the proleptic Gregorian calendar. Days are numbered from day 1, the first of January
of year 1; `Date.ordinal` counts the number of a date, and `Date.ofOrdinal` finds the date of a
number by peeling off whole cycles of 400, 100, 4 and 1 years.

Only the years 1 to 9999 have dates. `DateTime.ofMicroseconds` refuses the others, and tells
apart how far out of range an instant is.
-/

namespace ArchiveIndex

/-- A date of the proleptic Gregorian calendar. Months and days count from 1. -/
structure Date where
  year : Nat
  month : Nat
  day : Nat
deriving DecidableEq

namespace Date

/-- Every fourth year is a leap year, except the full centuries that 400 does not divide. -/
def isLeap (year : Nat) : Bool := year % 4 == 0 && (year % 100 != 0 || year % 400 == 0)

/-- The lengths of the twelve months. -/
def monthLengths (leap : Bool) : List Nat :=
  [31, if leap then 29 else 28, 31, 30, 31, 30, 31, 31, 30, 31, 30, 31]

/-- Days in the years `1, …, year - 1`. -/
def daysBeforeYear (year : Nat) : Nat :=
  let past := year - 1
  365 * past + past / 4 - past / 100 + past / 400

/-- Days in the months of the year before `month`. -/
def daysBeforeMonth (leap : Bool) (month : Nat) : Nat :=
  ((monthLengths leap).take (month - 1)).foldl (· + ·) 0

/-- A date that the calendar has. -/
def Valid (d : Date) : Prop :=
  1 ≤ d.year ∧ d.year ≤ 9999 ∧ 1 ≤ d.month ∧ d.month ≤ 12 ∧ 1 ≤ d.day ∧
    d.day ≤ (monthLengths (isLeap d.year)).getD (d.month - 1) 0

instance (d : Date) : Decidable d.Valid := by unfold Valid; infer_instance

/-- The number of the day, where day 1 is the first of January of year 1. -/
def ordinal (d : Date) : Nat :=
  daysBeforeYear d.year + daysBeforeMonth (isLeap d.year) d.month + d.day

/-! ## From the number of a day to its date -/

/-- The month, counted from `month`, and the day of the month in which day `n` of a run of
months falls; days here count from 0. -/
def monthAndDay (month : Nat) : List Nat → Nat → Nat × Nat
  | [], n => (month, n + 1)
  | length :: rest, n =>
    if n < length then (month, n + 1) else monthAndDay (month + 1) rest (n - length)

/-- The date of day `n`. A cycle of 400 years has 146097 days, a century 36524 and four years
1461, but the last century of a cycle and the last year of four are a day longer: their last
day would count as a fifth one, which `min` prevents. -/
def ofOrdinal (n : Nat) : Date :=
  let n := n - 1
  let cycles := n / 146097
  let n := n % 146097
  let centuries := min 3 (n / 36524)
  let n := n - centuries * 36524
  let fours := n / 1461
  let n := n % 1461
  let ones := min 3 (n / 365)
  let n := n - ones * 365
  let year := 400 * cycles + 100 * centuries + 4 * fours + ones + 1
  let (month, day) := monthAndDay 1 (monthLengths (isLeap year)) n
  ⟨year, month, day⟩

/-- The number of 1970-01-01. -/
def epoch : Nat := ordinal ⟨1970, 1, 1⟩

/-- The number of 9999-12-31, the last date. -/
def lastOrdinal : Nat := ordinal ⟨9999, 12, 31⟩

example : epoch = 719163 ∧ lastOrdinal = 3652059 := by decide

end Date

/-- A date and a time of day, to the microsecond. -/
structure DateTime extends Date where
  hour : Nat
  minute : Nat
  second : Nat
  microsecond : Nat
deriving DecidableEq

namespace DateTime

/-- How an instant lies outside the calendar. The number of days from the epoch may not fit in
a signed 32-bit word, or exceed what a span of time holds, or lead to a year outside 1 to
9999. -/
inductive RangeError
  | word
  | span (days : Int)
  | year
deriving DecidableEq

def RangeError.message : RangeError → String
  | word => "Python int too large to convert to C int"
  | span days => s!"days={days}; must have magnitude <= 999999999"
  | year => "date value out of range"

/-- Microseconds in a day. -/
def microsecondsPerDay : Nat := 86400000000

/-- The time of day `t` microseconds after midnight, on the given date. -/
def atTime (date : Date) (t : Nat) : DateTime :=
  { date with
    hour := t / 3600000000
    minute := t / 60000000 % 60
    second := t / 1000000 % 60
    microsecond := t % 1000000 }

/-- The date and time `us` microseconds from the epoch, rounding down to whole days for instants
before it as well. -/
def ofMicroseconds (us : Int) : Except RangeError DateTime :=
  let days := us / microsecondsPerDay
  let n := days + Date.epoch
  if days < -0x80000000 ∨ 0x80000000 ≤ days then .error .word
  else if days < -999999999 ∨ 999999999 < days then .error (.span days)
  else if n < 1 ∨ (Date.lastOrdinal : Int) < n then .error .year
  else .ok (atTime (.ofOrdinal n.toNat) (us % microsecondsPerDay).toNat)

/-- The distance of a date and time from the epoch, in microseconds. -/
def microseconds (d : DateTime) : Int :=
  ((d.ordinal : Int) - Date.epoch) * microsecondsPerDay +
    (((d.hour * 60 + d.minute) * 60 + d.second) * 1000000 + d.microsecond : Nat)

/-- The date and the time to the second, as `2024-02-29 23:59:59`. -/
def stamp (d : DateTime) : String :=
  let padded (width n : Nat) := String.ofList ((Nat.toDigits 10 n).leftpad width '0')
  s!"{padded 4 d.year}-{padded 2 d.month}-{padded 2 d.day} " ++
    s!"{padded 2 d.hour}:{padded 2 d.minute}:{padded 2 d.second}"

end DateTime
end ArchiveIndex
