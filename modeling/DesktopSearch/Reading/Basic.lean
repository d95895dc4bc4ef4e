import DesktopSearch.Pattern.Rewriting
import DesktopSearch.Reading.Date
import DesktopSearch.Reading.Kind
import DesktopSearch.Reading.Number
import DesktopSearch.Reading.Property

/-!
# Readings

A reading says what a pattern's captured terms are read as: `Reading.apply` answers the typed terms that
take their place, or nothing if the reading does not understand them.
-/

namespace DesktopSearch

/-- What captured terms are read as. -/
inductive Reading where
  | units
  | numbers
  | decimals
  | fileSize
  | kinds
  | fileNames
  | calendarNames
  | periods (fixed : Option Period) (counting : Reading.Counting) (number : Int)
  | writtenDate (afternoon numericMonths : Bool)
  | comparators (c : Comparator)
  | properties (property : Uri) (d : Domain)
  | subqueries (property : Uri)
  deriving DecidableEq

/-- What readings depend on. -/
structure Surroundings where
  settings : Settings
  flags : ParserFlags
  directory : Directory

namespace Reading

/-- Reads captured terms. -/
def apply (x : Surroundings) (r : Reading) : Reader :=
  match r with
  | .units => readUnits
  | .numbers => readNumbers x.settings
  | .decimals => readDecimals
  | .fileSize => readFileSize
  | .kinds => readKinds
  | .fileNames => readFileNames
  | .calendarNames => readCalendarNames x.settings
  | .periods fixed counting number => readPeriods x.settings fixed counting number
  | .writtenDate afternoon numericMonths => readWrittenDate afternoon numericMonths
  | .comparators c => readComparator x.settings c
  | .properties property d => readProperty x.directory property d
  | .subqueries property => readSubquery x.settings x.flags property

/-- The inquiry that reading some captured terms has to make. -/
def asks? (r : Reading) (ts : List Term) : Option Inquiry :=
  match r with
  | .properties _ d => inquiry? d ts
  | _ => none

end Reading

end DesktopSearch
