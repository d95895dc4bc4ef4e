/-!
# Dates

The proleptic Gregorian calendar over the years `-262143` to `262142`. Days are counted by
`dayNumber`, with day 0 the Monday January 1 of year 1; `ofDayNumber?` goes back. Arithmetic on a date
is arithmetic on that count (`addDays?`) or on the count of months (`addMonths?`), and gives nothing
when the result lies outside the range of years.
-/

namespace DesktopSearch

/-! ## Years and months -/

/-- Whether the year has a February 29. -/
def isLeapYear (year : Int) : Bool :=
  year % 4 == 0 && (year % 100 != 0 || year % 400 == 0)

/-- The number of days of a year. -/
def daysInYear (year : Int) : Nat :=
  if isLeapYear year then 366 else 365

/-- The number of days of a month, counted from one. -/
def daysInMonth (year : Int) (month : Nat) : Nat :=
  match month with
  | 2 => if isLeapYear year then 29 else 28
  | 4 | 6 | 9 | 11 => 30
  | _ => 31

/-- The number of days between January 1 of year 1 and January 1 of a year. -/
def daysBeforeYear (year : Int) : Int :=
  365 * (year - 1) + (year - 1) / 4 - (year - 1) / 100 + (year - 1) / 400

/-- The number of days of a year that lie before a month. -/
def daysBeforeMonth (year : Int) : Nat → Nat
  | 0 => 0
  | 1 => 0
  | month + 1 => daysBeforeMonth year month + daysInMonth year month

/-- The first year. -/
def firstYear : Int := -262143

/-- The last year. -/
def lastYear : Int := 262142

/-! ## Dates -/

/-- A day of the calendar. -/
structure Date where
  year : Int
  month : Nat
  day : Nat
  firstYear_le : firstYear ≤ year
  le_lastYear : year ≤ lastYear
  one_le_month : 1 ≤ month
  month_le : month ≤ 12
  one_le_day : 1 ≤ day
  day_le : day ≤ daysInMonth year month
  deriving DecidableEq

namespace Date

/-- The date with the given year, month and day, if there is such a day. -/
def ofYmd? (year : Int) (month day : Nat) : Option Date :=
  if h : firstYear ≤ year ∧ year ≤ lastYear ∧ 1 ≤ month ∧ month ≤ 12 ∧ 1 ≤ day ∧
      day ≤ daysInMonth year month then
    some ⟨year, month, day, h.1, h.2.1, h.2.2.1, h.2.2.2.1, h.2.2.2.2.1, h.2.2.2.2.2⟩
  else none

/-- The place of the day in its year, from one. -/
def ordinal (d : Date) : Nat :=
  daysBeforeMonth d.year d.month + d.day

/-- The number of days since January 1 of year 1. -/
def dayNumber (d : Date) : Int :=
  daysBeforeYear d.year + d.ordinal - 1

/-- The year that the `n`-th day lies in: the mean length of a year misses it by at most one. -/
def yearOfDay (n : Int) : Int :=
  let year := 400 * n / 146097 + 1
  if n < daysBeforeYear year then year - 1
  else if daysBeforeYear (year + 1) ≤ n then year + 1
  else year

/-- The month and day at a place of the year, looking from a month on and giving up after December. -/
def monthDayFrom (year : Int) : (remaining month place : Nat) → Nat × Nat
  | 0, month, place => (month, place)
  | remaining + 1, month, place =>
    if place ≤ daysInMonth year month then (month, place)
    else monthDayFrom year remaining (month + 1) (place - daysInMonth year month)

/-- The date at a place of the year, from one. -/
def ofOrdinal? (year : Int) (place : Nat) : Option Date :=
  let (month, day) := monthDayFrom year 12 1 place
  ofYmd? year month day

/-- The date that lies `n` days after January 1 of year 1. -/
def ofDayNumber? (n : Int) : Option Date :=
  let year := yearOfDay n
  ofOrdinal? year (n - daysBeforeYear year + 1).toNat

/-- The date `n` days later. -/
def addDays? (d : Date) (n : Int) : Option Date :=
  ofDayNumber? (d.dayNumber + n)

/-- The date `n` months later, on the same day of the month or else on its last day. -/
def addMonths? (d : Date) (n : Int) : Option Date :=
  let months := d.year * 12 + (d.month - 1 : Nat) + n
  let year := months / 12
  let month := (months % 12).toNat + 1
  ofYmd? year month (min d.day (daysInMonth year month))

/-! ## Weeks -/

/-- Days since Monday. -/
def weekday (d : Date) : Nat :=
  (d.dayNumber % 7).toNat

/-- The day number of the Monday of a date's week. -/
def mondayNumber (d : Date) : Int :=
  d.dayNumber - d.weekday

/-- The year that a date's week belongs to: that of its Thursday. -/
def isoYear (d : Date) : Int :=
  yearOfDay (d.mondayNumber + 3)

/-- The number of a date's week within its year: the weeks are counted by their Thursdays. -/
def isoWeek (d : Date) : Nat :=
  ((d.mondayNumber + 3 - daysBeforeYear d.isoYear) / 7).toNat + 1

/-- The day number of the Monday of a year's first week, the one that holds January 4. -/
def firstMonday (year : Int) : Int :=
  daysBeforeYear year + 3 - (daysBeforeYear year + 3) % 7

/-- The number of weeks of a year: December 28 always lies in the last one. -/
def weeksInYear (year : Int) : Nat :=
  match ofYmd? year 12 28 with
  | some d => d.isoWeek
  | none => 52

/-- The date in a week of a year, counted from one, on a weekday, counted from zero. -/
def ofWeek? (year : Int) (week weekday : Nat) : Option Date :=
  ofDayNumber? (firstMonday year + 7 * ((week : Int) - 1) + weekday)

end Date

end DesktopSearch
