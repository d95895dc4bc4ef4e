import DesktopSearch.Calendar.Instant

/-!
# Moments

A moment is an instant together with how precisely it was given: "June 5, 2013" is a moment with the
precision of a day, and being equal to it means lying somewhere in that day. Its `finish` is the
instant one period later, so that the moment stands for the instants from `start` up to `finish`.
-/

namespace DesktopSearch

/-- The periods of the calendar, from the coarsest to the finest. -/
inductive Period where
  | year | month | week | dayOfWeek | day | hour | minute | second
  deriving DecidableEq, Repr

namespace Period

/-- All periods in order. -/
def all : List Period := [year, month, week, dayOfWeek, day, hour, minute, second]

/-- The place of a period in the order. -/
def index : Period → Nat
  | year => 0
  | month => 1
  | week => 2
  | dayOfWeek => 3
  | day => 4
  | hour => 5
  | minute => 6
  | second => 7

/-- The name of a period. -/
def name : Period → String
  | year => "year"
  | month => "month"
  | week => "week"
  | dayOfWeek => "dayofweek"
  | day => "day"
  | hour => "hour"
  | minute => "minute"
  | second => "second"

/-- The period with a given name. -/
def ofName? (s : String) : Option Period :=
  all.find? (·.name == s)

/-- One period later, or the same instant at the end of the calendar. -/
def advance (p : Period) (t : Instant) : Instant :=
  let later := match p with
    | year => t.addMonths? 12
    | month => t.addMonths? 1
    | week => t.addSeconds? (7 * secondsPerDay)
    | dayOfWeek | day => t.addSeconds? secondsPerDay
    | hour => t.addSeconds? 3600
    | minute => t.addSeconds? 60
    | second => t.addSeconds? 1
  later.getD t

end Period

/-- An instant and the precision it was given with. -/
structure Moment where
  instant : Instant
  precision : Period
  deriving DecidableEq

namespace Moment

/-- A moment that is known to the second. -/
def exact (instant : Instant) : Moment := ⟨instant, .second⟩

/-- A whole day. -/
def onDay (date : Date) : Moment := ⟨Instant.midnight date, .day⟩

/-- The first instant of the moment. -/
def start (m : Moment) : Instant := m.instant

/-- The first instant after the moment. -/
def finish (m : Moment) : Instant := m.precision.advance m.instant

/-- The moment as text: its instant without the fraction of a second. -/
def text (m : Moment) : String := m.instant.text

end Moment

end DesktopSearch
