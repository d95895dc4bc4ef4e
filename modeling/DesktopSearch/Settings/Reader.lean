import DesktopSearch.Settings.Basic
import DesktopSearch.Settings.Path

/-!
# Reading settings

`Settings.read?` reads settings from a document; what the document does not mention stays English.
`Settings.load?` adds the variables of an environment, which override the document. Keys and variables
may be paths, so that a single item of a list can be set. A value of another kind than its field is read
as one of that kind where that makes sense: numbers and truth values have texts, texts spell numbers and
truth values, and a number is true unless it is zero.
-/

namespace DesktopSearch

namespace Document

/-- The truth value that a word stands for. -/
def wordTruth? (s : String) : Option Bool :=
  match Text.lower s with
  | "true" | "on" | "yes" => some true
  | "false" | "off" | "no" => some false
  | _ => none

/-- A value as text. -/
def asString? : Document → Option String
  | string s => some s
  | integer n => some (toString n)
  | double d => some d.text
  | boolean b => some (if b then "true" else "false")
  | _ => none

/-- A value as a number below 2 ^ 64. A double is rounded and moved into the range. -/
def asNat? : Document → Option Nat
  | integer n => if 0 ≤ n then some n.toNat else none
  | double d =>
    if d.isNaN then some 0
    else
      match d.round? with
      | some n => some (min n.toNat (Text.nat64Limit - 1))
      | none => some (if d.isNegative then 0 else Text.nat64Limit - 1)
  | boolean b => some b.toNat
  | string s =>
    match wordTruth? s with
    | some b => some b.toNat
    | none => Text.readNat? Text.nat64Limit s.toList
  | _ => none

/-- A value as a double. -/
def asDouble? : Document → Option Double
  | integer n => some (Double.ofInt n)
  | double d => some d
  | boolean b => some (Double.ofInt b.toNat)
  | string s =>
    match wordTruth? s with
    | some b => some (Double.ofInt b.toNat)
    | none => Double.read? s.toList
  | _ => none

/-- A value as a truth value. -/
def asBool? : Document → Option Bool
  | boolean b => some b
  | integer n => some (n != 0)
  | double d => some (d.isNaN || d.mantissa != 0)
  | string s => (wordTruth? s).or (if s == "1" then some true else if s == "0" then some false else none)
  | _ => none

/-- A value as a list of texts. -/
def asStrings? : Document → Option (List String)
  | list items => items.mapM asString?
  | _ => none

end Document

namespace Settings

/-- The settings that the entries of a document give, English where they say nothing. -/
def ofEntries? (entries : List (String × Document)) : Option Settings := do
  let get {α : Type} (key : String) (read? : Document → Option α) (default : α) : Option α :=
    match Document.field? entries key with
    | some d => read? d
    | none => some default
  return {
    separators := ← get "separators" Document.asString? english.separators
    andKeyword := ← get "and_keyword" Document.asString? english.andKeyword
    orKeyword := ← get "or_keyword" Document.asString? english.orKeyword
    notKeyword := ← get "not_keyword" Document.asString? english.notKeyword
    wordsSeparatedBySpaces :=
      ← get "words_separated_by_spaces" Document.asBool? english.wordsSeparatedBySpaces
    stopWordLength := ← get "stop_word_length" Document.asNat? english.stopWordLength
    monthNames := ← get "month_names" Document.asStrings? english.monthNames
    weekdayNames := ← get "weekday_names" Document.asStrings? english.weekdayNames
    periodNames := ← get "period_names" Document.asStrings? english.periodNames
    numberWords := ← get "number_words" Document.asStrings? english.numberWords
    ordinalWords := ← get "ordinal_words" Document.asStrings? english.ordinalWords
    numericWindow := ← get "numeric_window" Document.asDouble? english.numericWindow }

/-- The entries of a document whose root is an object. -/
def entries? (text : String) : Option (List (String × Document)) :=
  match Document.read? text.toList with
  | some (.object entries) => some entries
  | _ => none

/-- The settings that entries give when each is put at the place its key stands for, a later one over
an earlier one. -/
def ofAssignments? (assignments : List (String × Document)) : Option Settings :=
  ofEntries? (assignments.foldl (fun es a => (Document.Path.ofKey a.1).assign a.2 es) [])

/-- The settings that a document gives. -/
def read? (text : String) : Option Settings := do
  ofAssignments? (← entries? text)

/-- The variables of an environment after they were set one after the other: a variable that is set
again keeps its place and takes the new value. -/
def environment (bindings : List (String × String)) : List (String × String) :=
  bindings.foldl (fun es (name, value) =>
    if es.any (·.1 == name) then es.map fun e => if e.1 == name then (name, value) else e
    else es ++ [(name, value)]) []

/-- The entry that a variable of an environment gives: the key is what follows the name of the
application and an underscore, in lower case; the case of the whole name does not count. -/
def override? (application : String) (variable_ : String × String) :
    Option (String × Document) :=
  let start := (Text.lower application).toList ++ ['_']
  let name := (Text.lower variable_.1).toList
  if start.isPrefixOf name then
    some (String.ofList (name.drop start.length), .string variable_.2)
  else none

/-- The settings of a file, if there is one, and of an environment, whose variables override it. A
byte-order mark in front of the file is left out. -/
def load? (application : String) (file : Option String) (bindings : List (String × String)) :
    Option Settings := do
  let written ← match file with
    | some text => entries? (String.ofList (match text.toList with
      | '\uFEFF' :: rest => rest
      | cs => cs))
    | none => some []
  ofAssignments? (written ++ (environment bindings).filterMap (override? application))

end Settings

end DesktopSearch
