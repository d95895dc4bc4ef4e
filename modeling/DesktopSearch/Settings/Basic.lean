import DesktopSearch.Calendar.Moment
import DesktopSearch.Number.Double
import DesktopSearch.Text.Blank
import DesktopSearch.Text.Case

/-!
# Settings

What a language brings to the reading of typed text: its keywords, its separators, the names of months,
weekdays and periods, and its words for numbers. `Settings.english` is what holds where nothing else is
said. The entries of the lists of names are spellings with bars between them, and the place of an entry
in its list is what it means.
-/

namespace DesktopSearch

/-- The words of a language and the measures of plain text. -/
structure Settings where
  /-- The characters that always are words of their own. -/
  separators : String
  andKeyword : String
  orKeyword : String
  notKeyword : String
  /-- Whether words are separated by blanks; if not, short words count like long ones. -/
  wordsSeparatedBySpaces : Bool
  /-- The length up to which plain words are left out. -/
  stopWordLength : Nat
  /-- The names of the months, from January. -/
  monthNames : List String
  /-- The names of the weekdays, from Monday. -/
  weekdayNames : List String
  /-- The names of the periods, from the coarsest. -/
  periodNames : List String
  /-- The words for numbers, from zero. -/
  numberWords : List String
  /-- The words for ordinal numbers, from the first. -/
  ordinalWords : List String
  /-- The width of the range that a plain number stands for, relative to the number. -/
  numericWindow : Double

namespace Settings

/-- The settings of English. The word for the second of a row is left out, since it names a period. -/
def english : Settings where
  separators := ",;:!?()[]\x7b\x7d<>=#+-"
  andKeyword := "and"
  orKeyword := "or"
  notKeyword := "not"
  wordsSeparatedBySpaces := true
  stopWordLength := 2
  monthNames := ["january|jan", "february|feb", "march|mar", "april|apr", "may", "june|jun",
    "july|jul", "august|aug", "september|sep|sept", "october|oct", "november|nov", "december|dec"]
  weekdayNames := ["monday|mon", "tuesday|tue", "wednesday|wed", "thursday|thu", "friday|fri",
    "saturday|sat", "sunday|sun"]
  periodNames := ["year|years", "month|months", "week|weeks", "", "day|days", "hour|hours",
    "minute|minutes|min|mins", "second|seconds|sec|secs"]
  numberWords := ["zero", "one", "two", "three", "four", "five", "six", "seven", "eight", "nine",
    "ten", "eleven", "twelve"]
  ordinalWords := ["", "", "third", "fourth", "fifth", "sixth", "seventh", "eighth", "ninth",
    "tenth", "eleventh", "twelfth"]
  numericWindow := ⟨0x3FC999999999999A⟩

instance : Inhabited Settings := ⟨english⟩

/-- Whether an entry lists a spelling. -/
def spells (entry spelling : String) : Bool :=
  (Text.splitAt (· == '|') entry.toList).contains spelling.toList

/-- The place of the first entry that lists a word, whose case does not count. The empty word is in no
list. -/
def place? (entries : List String) (word : String) : Option Nat :=
  if word.isEmpty then none else entries.findIdx? (spells · (Text.lower word))

/-- Whether a character always is a word of its own. -/
def isSeparator (s : Settings) (c : Char) : Bool :=
  s.separators.toList.contains c

/-- The number of the month with a given name. -/
def month? (s : Settings) (word : String) : Option Nat :=
  (place? s.monthNames word).map (· + 1)

/-- The number of the weekday with a given name; Monday is the first. -/
def weekday? (s : Settings) (word : String) : Option Nat :=
  (place? s.weekdayNames word).map (· + 1)

/-- The period with a given name. -/
def period? (s : Settings) (word : String) : Option Period := do
  Period.all[← place? s.periodNames word]?

/-- The number that a word or an ordinal word stands for. -/
def number? (s : Settings) (word : String) : Option Nat :=
  (place? s.numberWords word).or ((place? s.ordinalWords word).map (· + 1))

/-- Whether a word joins or negates terms. -/
def isOperator (s : Settings) (word : String) : Bool :=
  let word := Text.lower word
  word == s.andKeyword || word == s.orKeyword || word == s.notKeyword

end Settings

end DesktopSearch
