import DesktopSearch.Dates.Field

/-!
# Date specifications

A specification holds a field for every period, and `DateSpec.moment?` is the moment it describes as seen
from now, if there is one. Periods that are not set take their present value as long as a finer one is set,
and the lowest one otherwise: "at three" is three o'clock today, "June" is the first of June this year. A
date is first put together from its absolute fields, then moved by the relative ones. Values beyond the end
of their period are cut to it. Only hours, minutes and seconds may be too many to be summed up, and then no
moment is described.
-/

namespace DesktopSearch

/-- A field for every period. -/
structure DateSpec where
  field : Period → Field

namespace DateSpec

/-- Nothing is said. -/
def empty : DateSpec := ⟨fun _ => .unset⟩

/-- Says something about a period. -/
def set (s : DateSpec) (p : Period) (f : Field) : DateSpec :=
  ⟨fun q => if q = p then f else s.field q⟩

/-- Whether anything is said about a period. -/
def isSet (s : DateSpec) (p : Period) : Bool := (s.field p).isSet

/-- The value to start from: the given one, else the present one if that is asked for or if the field is
relative, else the lowest one. -/
def value (s : DateSpec) (p : Period) (usesNow : Bool) (now lowest : Int) : Int :=
  match s.field p with
  | .absolute v => v
  | .relative _ => now
  | .unset => if usesNow then now else lowest

/-- The finest period of the date that is set, else the day. -/
def datePrecision (s : DateSpec) : Period :=
  ([.day, .dayOfWeek, .week, .month, .year].find? s.isSet).getD .day

/-- The finest period of the time of day that is set. -/
def timePrecision? (s : DateSpec) : Option Period :=
  [.second, .minute, .hour].find? s.isSet

/-- The finest period that is set. -/
def precision (s : DateSpec) : Period := s.timePrecision?.getD s.datePrecision

/-- The value to start from, of a period of the date. -/
def dateValue (s : DateSpec) (p : Period) (now : Int) : Int :=
  s.value p (decide (p.index ≤ s.datePrecision.index)) now 1

/-- The value to start from, of a period of the time of day. -/
def timeValue (s : DateSpec) (p : Period) (now : Int) : Int :=
  s.value p (s.timePrecision?.any fun q => decide (p.index ≤ q.index)) now 0

/-! ## Dates -/

/-- `n` moved between `low` and `high`. -/
def clamp (low high n : Int) : Int := max low (min n high)

/-- A year of four digits at most. -/
def clampYear (year : Int) : Int := clamp 1 9999 year

/-- The place `n` of `count` places, a negative one counted from the end. -/
def place (count : Nat) (n : Int) : Nat :=
  (clamp 1 count (if n < 0 then count + 1 + n else n)).toNat

/-- The day of a month of a year. -/
def dayOfMonth? (year month day : Int) : Option Date :=
  let year := clampYear year
  let month := place 12 month
  Date.ofYmd? year month (place (daysInMonth year month) day)

/-- The day of a year. -/
def dayOfYear? (year day : Int) : Option Date :=
  let year := clampYear year
  Date.ofOrdinal? year (place (daysInYear year) day)

/-- The date `n` days later, or the date itself at the end of the calendar. -/
def shiftDays (d : Date) (n : Int) : Date := (d.addDays? n).getD d

/-- The date `n` months later, or the date itself at the end of the calendar. -/
def shiftMonths (d : Date) (n : Int) : Date := (d.addMonths? n).getD d

/-- The Monday of a date's week. -/
def mondayOf (d : Date) : Date := shiftDays d (-(d.weekday : Int))

/-- The Monday of a week of a year. -/
def mondayInYear? (year week : Int) : Option Date :=
  let year := clampYear year
  Date.ofWeek? year (place (Date.weeksInYear year) week) 0

/-- The Monday of a week of a date's month. The first week is the one of the first day, and negative
weeks count back from the one of the last day. -/
def mondayInMonth? (d : Date) (week : Int) : Option Date :=
  if week < 0 then
    (dayOfMonth? d.year d.month (-1)).map fun last => shiftDays (mondayOf last) ((week + 1) * 7)
  else
    (Date.ofYmd? d.year d.month 1).map fun first =>
      shiftDays (mondayOf first) ((max week 1 - 1) * 7)

/-- The date of the absolute fields, weeks and weekdays aside. -/
def plainDate (s : DateSpec) (today : Date) : Date :=
  let year := s.dateValue .year today.year
  if s.isSet .month then
    (dayOfMonth? year (s.dateValue .month today.month) (s.dateValue .day today.day)).getD today
  else (dayOfYear? year (s.dateValue .day today.ordinal)).getD today

/-- The year and number of the week that is spoken of: the week that is given, within the month if one
is given too, else the present one. -/
def week (s : DateSpec) (today date : Date) : Int × Nat :=
  match s.field .week with
  | .absolute n =>
    let monday := if s.isSet .month then mondayInMonth? date n
      else mondayInYear? (s.dateValue .year today.year) n
    let date := monday.getD date
    (date.isoYear, date.isoWeek)
  | _ =>
    if (s.field .year).isAbsolute then (clampYear (s.dateValue .year today.year), today.isoWeek)
    else (today.isoYear, today.isoWeek)

/-- The weekday that is spoken of, from one. -/
def weekday (s : DateSpec) (today : Date) : Nat :=
  let n := s.dateValue .dayOfWeek (today.weekday + 1)
  (clamp 1 7 (if n < 0 then n + 8 else n)).toNat

/-- The date of the absolute fields: where a week or a weekday is set, a day of that week. -/
def startDate (s : DateSpec) (today : Date) : Date :=
  let date := s.plainDate today
  if s.isSet .week || s.isSet .dayOfWeek then
    let (year, week) := s.week today date
    let week := (clamp 1 (Date.weeksInYear year) week).toNat
    (Date.ofWeek? year week (s.weekday today - 1)).getD date
  else date

/-- Moves a date by a relative field. -/
def moveDate (s : DateSpec) (d : Date) (p : Period) : Date :=
  match s.field p with
  | .relative n =>
    match p with
    | .year => shiftMonths d (12 * n)
    | .month => shiftMonths d n
    | .week => shiftDays d (7 * n)
    | _ => shiftDays d n
  | _ => d

/-- The date that is described. -/
def date (s : DateSpec) (today : Date) : Date :=
  [Period.year, .month, .week, .dayOfWeek, .day].foldl s.moveDate (s.startDate today)

/-! ## Times -/

/-- The time of the absolute fields, in seconds since midnight. -/
def startSecond (s : DateSpec) (now : Instant) : Nat :=
  let hour := (clamp 0 23 (s.timeValue .hour now.hour)).toNat
  let minute := (clamp 0 59 (s.timeValue .minute now.minute)).toNat
  let second := (clamp 0 59 (s.timeValue .second now.secondOfMinute)).toNat
  3600 * hour + 60 * minute + second

/-- The seconds that a relative field moves by, kept to 64 bits. -/
def shift (s : DateSpec) (p : Period) (seconds : Int) : Int :=
  match s.field p with
  | .relative n => Text.saturate (n * seconds)
  | _ => 0

/-- The seconds that the relative fields of the time of day move by, summed up one by one as far as 64 bits
hold the sum. -/
def timeShift? (s : DateSpec) : Option Int := do
  let minutes ← Text.checked? (s.shift .hour 3600 + s.shift .minute 60)
  Text.checked? (minutes + s.shift .second 1)

/-- The moment that is described, as seen from now. -/
def moment? (s : DateSpec) (now : Instant) : Option Moment :=
  let start := Instant.atSecond (s.date now.date) (s.startSecond now)
  s.timeShift?.map fun shift => ⟨(start.addSeconds? shift).getD start, s.precision⟩

end DateSpec

end DesktopSearch
