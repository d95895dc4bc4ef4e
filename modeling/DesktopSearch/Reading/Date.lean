import DesktopSearch.Dates.Field

/-!
# Reading dates

Names of months and weekdays, periods with a number, and the numbers of a written date become calendar
fields.
-/

namespace DesktopSearch.Reading

/-- Reads the name of a month or of a weekday. -/
def readCalendarNames (settings : Settings) : List Term → List Term
  | t :: _ =>
    match t.string? with
    | some word =>
      match settings.month? word with
      | some n => [.absoluteField .month n]
      | none =>
        match settings.weekday? word with
        | some n => [.absoluteField .dayOfWeek n]
        | none => []
    | none => []
  | [] => []

/-! ## Periods -/

/-- How the number next to a period counts. -/
inductive Counting where
  /-- As the calendar does. -/
  | absolute
  /-- From now on. -/
  | ahead
  /-- Back from now. -/
  | back
  deriving DecidableEq, Repr

/-- The field of a number next to a period. The least 64-bit integer stays itself when it counts back. -/
def countedField (p : Period) (n : Int) : Counting → Term
  | .absolute => .absoluteField p n
  | .ahead => .relativeField p n
  | .back => .relativeField p (Text.wrap (-n))

/-- Reads a period with a number. The period is `fixed`, or named by the first capture; the number is the
second capture if there is one, else `number`. -/
def readPeriods (settings : Settings) (fixed : Option Period) (counting : Counting) (number : Int)
    (ts : List Term) : List Term :=
  let period? := fixed.or (ts.head?.bind fun t => t.string?.bind settings.period?)
  let number? := match ts[1]? with
    | some t => t.integer?
    | none => some number
  match period?, number? with
  | some p, some n => [countedField p n counting]
  | _, _ => []

/-! ## Written dates -/

/-- The periods of the slots of a written date. -/
def slotPeriods : List Period := [.year, .month, .day, .dayOfWeek, .hour, .minute, .second]

/-- The number of an integer that lies between two bounds. -/
def inRange? (low high : Int) (t : Term) : Option Int :=
  t.integer?.filter fun n => decide (low ≤ n) && decide (n ≤ high)

/-- The value that a captured term gives a period. Months are named unless `numericMonths` is set, and
hours after midday run from twelve over one to eleven. -/
def slotValue? (afternoon numericMonths : Bool) (p : Period) (t : Term) : Option Int :=
  match p with
  | .year => inRange? 1000 9999 t
  | .month =>
    if numericMonths then inRange? 1 12 t
    else (t.fieldNumber? .month).filter fun n => decide (1 ≤ n) && decide (n ≤ 12)
  | .week => none
  | .dayOfWeek => t.fieldNumber? .dayOfWeek
  | .day => inRange? 1 31 t
  | .hour =>
    if afternoon then (inRange? 0 12 t).map fun n => if n = 12 then 12 else n + 12
    else inRange? 0 23 t
  | .minute | .second => inRange? 0 59 t

/-- The fields of the captured terms, if all of them are understood. -/
def slotFields? (afternoon numericMonths : Bool) : List (Period × Term) → Option (List Term)
  | [] => some []
  | (p, t) :: rest =>
    if !t.isValid then slotFields? afternoon numericMonths rest
    else do
      let n ← slotValue? afternoon numericMonths p t
      return (Term.absoluteField p n).withSpan t.span ::
        (← slotFields? afternoon numericMonths rest)

/-- Reads the parts of a written date or time: year, month, day, weekday, hour, minute and second. -/
def readWrittenDate (afternoon numericMonths : Bool) (ts : List Term) : List Term :=
  (slotFields? afternoon numericMonths (slotPeriods.zip ts)).getD []

end DesktopSearch.Reading
