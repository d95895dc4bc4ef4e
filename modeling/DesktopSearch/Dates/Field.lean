import DesktopSearch.Settings.Basic
import DesktopSearch.Term.Basic

/-!
# Calendar fields

A date in plain text comes in pieces, "June" and "2013", or "next" and "week". Each piece is a field:
the period it is about, and its value, either counted by the calendar or relative to now. Between
reading and folding a field is kept as a comparison with a property of its own,
`date://month/value` or `date://month/offset`.
-/

namespace DesktopSearch

/-- What is said about a period. -/
inductive Field where
  | unset
  /-- The value that the calendar counts; negative values count from the end. -/
  | absolute (value : Int)
  /-- The number of periods from now. -/
  | relative (value : Int)
  deriving DecidableEq, Repr

namespace Field

/-- Whether anything is said. -/
def isSet : Field → Bool
  | unset => false
  | _ => true

/-- Whether the calendar's count is given. -/
def isAbsolute : Field → Bool
  | absolute _ => true
  | _ => false

end Field

namespace Term

/-- The property of a field about a period. -/
def fieldProperty (p : Period) (isRelative : Bool) : Uri :=
  ⟨Uri.dateScheme ++ "://" ++ p.name ++ (if isRelative then "/offset" else "/value")⟩

/-- The term for a period's value. -/
def absoluteField (p : Period) (value : Int) : Term :=
  compare (fieldProperty p false) (.ofLiteral (.integer value)) .equal

/-- The term for a number of periods from now. -/
def relativeField (p : Period) (value : Int) : Term :=
  compare (fieldProperty p true) (.ofLiteral (.integer value)) .equal

/-- The property and the number of a comparison that is a field. -/
def fieldParts? : Term → Option (Uri × Int)
  | comparison _ c value => do
    let property ← c.property
    if property.scheme? = some Uri.dateScheme then return (property, ← value.integer?) else none
  | _ => none

/-- The number of a field about a period, however it counts. -/
def fieldNumber? (t : Term) (p : Period) : Option Int := do
  let (property, n) ← t.fieldParts?
  if property.host? = some p.name then some n else none

/-- The field that a term stands for. -/
def field? (t : Term) : Option (Period × Field) := do
  let (property, n) ← t.fieldParts?
  let p ← Period.ofName? (← property.host?)
  return (p, if property.path = "/offset" then .relative n else .absolute n)

end Term

end DesktopSearch
