import DesktopSearch.Dates.Spec

/-!
# Folding dates

`foldDates?` replaces every run of calendar fields in a list of terms by the moment that they describe
together, unless one of them describes none. Short words between two fields, as in "third week of June",
belong to the run; those behind its last field do not.
-/

namespace DesktopSearch

/-- Whether a word may stand between two fields: it has two characters, or one that is no separator, and
does not join terms. -/
def isFiller (settings : Settings) (t : Term) : Bool :=
  match t.string? with
  | some word =>
    let length := word.length
    !settings.isOperator word &&
      (length == 2 || (length == 1 && !word.toList.all settings.isSeparator))
  | none => false

/-- A run of fields: what they say, their span, and the short words since the last of them. -/
structure DateRun where
  spec : DateSpec
  span : Span
  filler : List Term

namespace DateRun

/-- The run that starts with a field. -/
def start (p : Period) (f : Field) (span : Span) : DateRun :=
  ⟨DateSpec.empty.set p f, Span.empty.union span, []⟩

/-- The run with one more field. -/
def add (r : DateRun) (p : Period) (f : Field) (span : Span) : DateRun :=
  ⟨r.spec.set p f, r.span.union span, []⟩

/-- The run with one more short word behind it. -/
def fill (r : DateRun) (t : Term) : DateRun := { r with filler := r.filler ++ [t] }

/-- The terms that take the place of the run. -/
def terms? (r : DateRun) (now : Instant) : Option (List Term) :=
  (r.spec.moment? now).map fun m => .literal r.span (.dateTime m) :: r.filler

end DateRun

/-- Folds the dates of a list that follows a run, if one is open. -/
def foldDatesAfter? (settings : Settings) (now : Instant) :
    Option DateRun → List Term → Option (List Term)
  | none, [] => some []
  | some r, [] => r.terms? now
  | none, t :: ts =>
    match t.field? with
    | some (p, f) => foldDatesAfter? settings now (some (.start p f t.span)) ts
    | none => (foldDatesAfter? settings now none ts).map (t :: ·)
  | some r, t :: ts =>
    match t.field? with
    | some (p, f) => foldDatesAfter? settings now (some (r.add p f t.span)) ts
    | none =>
      if isFiller settings t then foldDatesAfter? settings now (some (r.fill t)) ts
      else do
        let us ← r.terms? now
        (foldDatesAfter? settings now none ts).map (us ++ t :: ·)

/-- Replaces every run of fields by a moment. -/
def foldDates? (settings : Settings) (now : Instant) (ts : List Term) : Option (List Term) :=
  foldDatesAfter? settings now none ts

end DesktopSearch
