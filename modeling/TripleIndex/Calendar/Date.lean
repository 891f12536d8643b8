/-
  Dates of the Gregorian calendar, extended to all years, and their day numbers. Day 1 is
  0001-01-01; year 0 precedes year 1.
-/
namespace TripleIndex.Calendar

/-- A day of the calendar. -/
structure Date where
  year : Int
  month : Nat
  day : Nat
  deriving DecidableEq

/-- The first year that can be stored. -/
def firstYear : Int := -262143

/-- The last year that can be stored. -/
def lastYear : Int := 262142

/-- Whether a year has 366 days. -/
def isLeap (year : Int) : Bool :=
  year % 4 == 0 && (year % 100 != 0 || year % 400 == 0)

/-- The lengths of the months of a year. -/
def monthLengths (year : Int) : List Nat :=
  [31, if isLeap year then 29 else 28, 31, 30, 31, 30, 31, 31, 30, 31, 30, 31]

/-- Days before the first of January of a year, counted from 0001-01-01. -/
def daysBeforeYear (year : Int) : Int :=
  let past := year - 1
  365 * past + past / 4 - past / 100 + past / 400

/-- Days of a year before the first of a month. -/
def daysBeforeMonth (year : Int) (month : Nat) : Nat :=
  ((monthLengths year).take (month - 1)).foldl (· + ·) 0

/-- The year of a day number: the mean length of a year places it to within one. -/
def yearOfDay (n : Int) : Int :=
  let guess := 400 * (n - 1) / 146097 + 1
  if n ≤ daysBeforeYear guess then guess - 1
  else if daysBeforeYear (guess + 1) < n then guess + 1
  else guess

/-- The month, counted from `month`, and the day in it of the `day`-th day from its start. -/
def monthAndDay (month : Nat) : List Nat → Nat → Nat × Nat
  | [], day => (month, day)
  | length :: lengths, day =>
    if day ≤ length then (month, day) else monthAndDay (month + 1) lengths (day - length)

namespace Date

/-- Whether the month has that day and the year can be stored. -/
def Valid (d : Date) : Prop :=
  (firstYear ≤ d.year ∧ d.year ≤ lastYear) ∧ 1 ≤ d.month ∧ 1 ≤ d.day
    ∧ d.day ≤ (monthLengths d.year).getD (d.month - 1) 0

instance (d : Date) : Decidable d.Valid :=
  inferInstanceAs (Decidable (_ ∧ _))

/-- The number of a day. -/
def dayNumber (d : Date) : Int :=
  daysBeforeYear d.year + daysBeforeMonth d.year d.month + d.day

/-- The day of a number. -/
def ofDayNumber (n : Int) : Date :=
  let year := yearOfDay n
  let (month, day) := monthAndDay 1 (monthLengths year) (n - daysBeforeYear year).toNat
  ⟨year, month, day⟩

/-- The day of a number, if its year can be stored. -/
def ofDayNumber? (n : Int) : Option Date :=
  let d := ofDayNumber n
  if d.Valid then some d else none

end Date

end TripleIndex.Calendar
