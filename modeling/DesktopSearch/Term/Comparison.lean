import DesktopSearch.Text.Blank
import DesktopSearch.Text.Case
import DesktopSearch.Uri

/-!
# Comparisons

What a comparison says about the values of a property, apart from the term they are compared with: the
comparator, whether the property is followed backwards, and the variable the value is bound to, which
may be aggregated and sorted by.
-/

namespace DesktopSearch

/-! ## Comparators -/

/-- The ways to compare a value. -/
inductive Comparator where
  | contains | regexp | equal | greater | smaller | greaterOrEqual | smallerOrEqual
  deriving DecidableEq, Repr

namespace Comparator

/-- The symbol of a comparator. -/
def symbol : Comparator → String
  | contains => ":"
  | regexp => "regex"
  | equal => "="
  | greater => ">"
  | smaller => "<"
  | greaterOrEqual => ">="
  | smallerOrEqual => "<="

/-- The comparator with a symbol, blanks around it aside; containment for every other text. -/
def ofSymbol (s : String) : Comparator :=
  match String.ofList (Text.trim s.toList) with
  | "=" => equal
  | "regex" => regexp
  | ">" => greater
  | "<" => smaller
  | ">=" => greaterOrEqual
  | "<=" => smallerOrEqual
  | _ => contains

end Comparator

/-! ## Aggregates and sorting -/

/-- The functions that many values of a property are brought down to one with. -/
inductive Aggregate where
  | count | distinctCount | max | min | sum | distinctSum | average | distinctAverage
  deriving DecidableEq, Repr

namespace Aggregate

/-- The name of an aggregate function. -/
def name : Aggregate → String
  | count => "count"
  | distinctCount => "distinctcount"
  | max => "max"
  | min => "min"
  | sum => "sum"
  | distinctSum => "distinctsum"
  | average => "avg"
  | distinctAverage => "distinctavg"

/-- All aggregate functions. -/
def all : List Aggregate :=
  [count, distinctCount, max, min, sum, distinctSum, average, distinctAverage]

/-- A name that is not that of an aggregate function, in lower case. -/
structure Unknown where
  name : String

/-- What is wrong with an unknown name. -/
def Unknown.message (e : Unknown) : String :=
  "unknown aggregate function '" ++ e.name ++ "'"

/-- The aggregate function with a name in any case; the empty name and `none` stand for none. -/
def ofName (s : String) : Except Unknown (Option Aggregate) :=
  let name := Text.lower s
  if name = "" ∨ name = "none" then .ok none
  else
    match all.find? (·.name == name) with
    | some a => .ok (some a)
    | none => .error ⟨name⟩

end Aggregate

/-- The two directions to sort in. -/
inductive SortOrder where
  | ascending | descending
  deriving DecidableEq, Repr

namespace SortOrder

/-- The name of a direction. -/
def name : SortOrder → String
  | ascending => "asc"
  | descending => "desc"

/-- Descending for `desc` in any case, ascending for every other name. -/
def ofName (s : String) : SortOrder :=
  if s.toList.map Char.toLower = "desc".toList then descending else ascending

end SortOrder

/-! ## Comparisons -/

/-- A constraint on the values of a property, apart from the term they are compared with. -/
structure Comparison where
  property : Option Uri
  comparator : Comparator := .contains
  inverted : Bool := false
  variableName : Option String := none
  aggregate : Option Aggregate := none
  sortWeight : Int := 0
  sortOrder : SortOrder := .ascending
  deriving DecidableEq

end DesktopSearch
