import DesktopSearch.Settings.Basic
import DesktopSearch.Term.Basic

/-!
# Ranges

A date stands for all instants of its period and a plain number for the numbers around it; both become
two comparisons that bound the values of a property.
-/

namespace DesktopSearch

namespace Term

/-- The term that bounds a property from below and above. -/
def between (property : Option Uri) (low high : Literal) (span : Span) : Term :=
  let bound (l : Literal) (c : Comparator) : Term :=
    (compare property (literal span l) c).withSpan span
  group span .and [bound low .greaterOrEqual, bound high .smallerOrEqual]

/-- The term for the values in the period of a moment. -/
def duringMoment (property : Option Uri) (m : Moment) (span : Span) : Term :=
  between property (.dateTime ⟨m.start, m.precision⟩) (.dateTime ⟨m.finish, m.precision⟩) span

end Term

namespace Settings

/-- The numeric window in whole percents, between none and all of the number. -/
def windowPercent (s : Settings) : Int :=
  let percent := Double.ofFloat (s.numericWindow.toFloat * 100)
  if percent.isNaN then 0
  else
    match percent.round? with
    | some n => max 0 (min n 100)
    | none => if percent.isNegative then 0 else 100

/-- The bounds around an integer: the window rounded inwards, and kept to 64 bits. -/
def integerWindow (s : Settings) (n : Int) : Int × Int :=
  let percent := s.windowPercent
  (Text.saturate (-(-(n * (100 - percent)) / 100)), Text.saturate (n * (100 + percent) / 100))

/-- The bounds around a double. -/
def doubleWindow (s : Settings) (d : Double) : Double × Double :=
  let x := d.toFloat
  let window := s.numericWindow.toFloat
  (.ofFloat (x * (1 - window)), .ofFloat (x * (1 + window)))

end Settings

end DesktopSearch
