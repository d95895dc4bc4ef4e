import DesktopSearch.Directory
import DesktopSearch.Fusion.Basic

/-!
# Reading properties

A comparator binds the value behind it to a comparison whose property is still open. The words for a
property then bind a value, or such a comparison, to the property, if the value is of the kind that the
property has: a tag or a person is looked up in the directory. Words about relations bind all the terms
behind them, as a query of their own.
-/

namespace DesktopSearch

/-- What a property has as values. -/
inductive Domain where
  | integer | number | string | dateTime | tag | contact | address
  deriving DecidableEq, Repr

namespace Domain

/-- The inquiry whose answer decides about a value of the domain. -/
def inquiry? : Domain → Option Inquiry
  | tag => some .tags
  | contact | address => some .people
  | _ => none

/-- The resource that a label names. People are called by their names or by their addresses, and the
domain says what is tried first. -/
def find? (d : Domain) (directory : Directory) (label : String) : Option Uri :=
  match d with
  | tag => directory.tags.find? label
  | contact => (directory.names.find? label).or (directory.addresses.find? label)
  | address => (directory.addresses.find? label).or (directory.names.find? label)
  | _ => none

/-- The value that a literal gives a property with the domain. -/
def convert? (d : Domain) (directory : Directory) (t : Term) : Option Term :=
  match t with
  | .literal span l =>
    match d, l with
    | integer, .integer _ | number, .integer _ | number, .double _ | string, .string _
    | dateTime, .dateTime _ => some t
    | _, .string label => (d.find? directory label).map (.resource span)
    | _, _ => none
  | _ => none

end Domain

namespace Reading

/-- Binds a value to a comparison without a property. Separators and operators are no values. -/
def readComparator (settings : Settings) (c : Comparator) : List Term → List Term
  | t :: _ =>
    match t.literal? with
    | some (.string word) =>
      if (!word.isEmpty && word.toList.all settings.isSeparator) || settings.isOperator word then []
      else [.compare none t c]
    | some _ => [.compare none t c]
    | none => []
  | [] => []

/-- The value in a captured term, and its comparator if it is in a comparison without a property. -/
def value? : Term → Option (Term × Option Comparator)
  | .literal span l => some (.literal span l, none)
  | .comparison _ head value =>
    if head.property.isNone then some (value, some head.comparator) else none
  | _ => none

/-- Binds a value to a property. Without a comparator, texts are to be contained and other values to be
equalled. -/
def readProperty (directory : Directory) (property : Uri) (d : Domain) : List Term → List Term
  | t :: _ =>
    match value? t with
    | some (value, comparator) =>
      match d.convert? directory value with
      | some converted =>
        let plain : Comparator := if converted.string?.isSome then .contains else .equal
        [.compare (some property) converted (comparator.getD plain)]
      | none => []
    | none => []
  | [] => []

/-- The inquiry that binding a captured term to a property with a domain has to make. -/
def inquiry? (d : Domain) (ts : List Term) : Option Inquiry := do
  let (value, _) ← ts.head?.bind value?
  if value.string?.isSome then d.inquiry? else none

/-- Binds what all the captured terms come to as a query of their own. -/
def readSubquery (settings : Settings) (flags : ParserFlags) (property : Uri) (ts : List Term) :
    List Term :=
  let (nested, _) := fuse settings flags ts 0
  if nested.isValid then [.compare (some property) nested .equal] else []

end Reading

end DesktopSearch
