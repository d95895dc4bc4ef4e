import DesktopSearch.Proposal
import DesktopSearch.Reading.Basic

/-!
# Phrasings

The phrasings of plain text that are understood, in the order in which they are tried: a phrasing is a
reading with the patterns that it is good for, and it may propose these patterns to someone who has
started to type one of them. Later phrasings see what earlier ones have read. `Phrasing.ofDates` ends
where calendar fields are folded into dates.
-/

namespace DesktopSearch

open Vocabulary

/-- A reading with its patterns, and what they propose. -/
structure Phrasing where
  reading : Reading
  patterns : List String
  completion : Option Completion := none

namespace Phrasing

/-- A phrasing that proposes its patterns. -/
def proposed (reading : Reading) (type : ProposalType) (description : String)
    (patterns : List String) : Phrasing :=
  ⟨reading, patterns, some ⟨type, description⟩⟩

/-! ## Values and kinds -/

/-- The phrasings of numbers, sizes, kinds of resources and names of files. -/
def ofValues (flags : ParserFlags) : List Phrasing :=
  [{ reading := .units, patterns := ["%1"] },
    { reading := .numbers, patterns := ["%1"] },
    { reading := .decimals, patterns := ["%1 \\. %2"] },
    { reading := .fileSize, patterns := ["%1 %2"] },
    { reading := .kinds, patterns := ["%1"] }] ++
  if flags.fileNames then [{ reading := .fileNames, patterns := ["%1"] }] else []

/-! ## Dates -/

/-- The phrasings of periods, counted or named. -/
def ofPeriods : List Phrasing :=
  [{ reading := .calendarNames, patterns := ["%1"] },
    { reading := .periods none .ahead 0, patterns := ["in %2 %1"] },
    { reading := .periods none .back 0, patterns := ["%2 %1 ago"] },
    proposed (.periods (some .day) .ahead 1) .dateTime "Tomorrow" ["tomorrow"],
    proposed (.periods (some .day) .ahead (-1)) .dateTime "Yesterday" ["yesterday"],
    proposed (.periods (some .day) .ahead 0) .dateTime "Today" ["today"],
    proposed (.periods none .absolute 1) .none "First week, month, day, ..." ["first %1"],
    proposed (.periods none .absolute (-1)) .none "Last week, month, day, ..." ["last %1 of"],
    { reading := .periods none .absolute 0, patterns := ["%2 %1"] },
    proposed (.periods none .ahead 1) .none "Next week, month, day, ..." ["next %1"],
    proposed (.periods none .ahead (-1)) .none "Previous week, month, day, ..." ["last %1"]]

/-- The phrasings of written times and dates. -/
def ofWrittenDates : List Phrasing :=
  [proposed (.writtenDate true false) .none "A time after midday"
      ["at %5 : %6 pm", "at %5 h pm", "at %5 pm", "%5 : %6 pm", "%5 h pm", "%5 pm"],
    proposed (.writtenDate false false) .none "A time"
      ["at %5 : %6 am", "at %5 h am", "at %5 am", "at %5", "%5 : %6 am", "%5 : %6 : %7", "%5 : %6",
        "%5 h am", "%5 h", "%5 am"],
    { reading := .writtenDate false false
      patterns := ["%3 of %2 %1", "%3 st|nd|rd|th %2 %1", "%3 st|nd|rd|th of %2 %1", "%3 of %2",
        "%3 st|nd|rd|th %2", "%3 st|nd|rd|th of %2", "%2 %3 st|nd|rd|th", "%2 %3", "%2 %1"] },
    { reading := .writtenDate false true
      patterns := ["%1 - %2 - %3", "%1 - %2", "%3 / %2 / %1", "%3 / %2"] },
    { reading := .writtenDate false false, patterns := ["in %2 %1", "in %1", ", %1"] }]

/-- The phrasings of everything that dates are made of. -/
def ofDates (flags : ParserFlags) : List Phrasing :=
  ofValues flags ++ ofPeriods ++ ofWrittenDates

/-! ## Comparisons -/

/-- The phrasings of comparators. -/
def ofComparators : List Phrasing :=
  [proposed (.comparators .contains) .none "Containing" ["contains|containing %1"],
    proposed (.comparators .greaterOrEqual) .none "At least" ["at least %1", "> = %1"],
    proposed (.comparators .greater) .none "Greater than" ["greater|bigger|more than %1", "> %1"],
    proposed (.comparators .greater) .dateTime "After" ["after|since %1"],
    proposed (.comparators .smallerOrEqual) .none "At most" ["at most %1", "< = %1"],
    proposed (.comparators .smaller) .none "Smaller than" ["smaller|less|lesser than %1", "< %1"],
    proposed (.comparators .smaller) .dateTime "Before" ["before|until %1"],
    proposed (.comparators .equal) .none "Equal to" ["equal|equals|= %1", "equal to %1"]]

/-- The phrasings of properties. -/
def ofProperties : List Phrasing :=
  [proposed (.properties Nao.numericRating .integer) .none "Rating (0 to 10)"
      ["rated as %1", "rated %1", "score is %1", "score|scored %1", "having %1 stars|star"],
    proposed (.properties Nao.description .string) .none "Comment or description"
      ["described as %1", "description|comment is %1", "described|description|comment %1"],
    proposed (.properties Nmo.messageFrom .address) .email "Sender of an e-mail"
      ["sent by %1", "from %1", "sender is %1", "sender %1"],
    proposed (.properties (.pseudo "title") .string) .none "Title" ["title %1", "titled %1"],
    proposed (.properties Nmo.messageRecipient .address) .email "Recipient of an e-mail"
      ["sent to %1", "to %1", "recipient is %1", "recipient %1"],
    proposed (.properties Nmo.sentDate .dateTime) .dateTime "Date of sending"
      ["sent at|on %1", "sent %1"],
    proposed (.properties Nmo.receivedDate .dateTime) .dateTime "Date of reception"
      ["received at|on %1", "received %1", "reception is %1"],
    proposed (.properties (.pseudo "author") .contact) .contact "Author"
      ["written|created|composed by %1", "author is %1", "by %1"],
    proposed (.properties (.pseudo "size") .number) .none "Size"
      ["size is %1", "size %1", "being %1 large", "%1 large"],
    proposed (.properties (.pseudo "name") .string) .none "Name"
      ["name is %1", "name %1", "named %1"],
    proposed (.properties (.pseudo "created") .dateTime) .dateTime "Date of creation"
      ["created|dated at|on|in|of %1", "created|dated %1", "creation date|time|datetime is %1"],
    proposed (.properties (.pseudo "modified") .dateTime) .dateTime "Date of last modification"
      ["modified|edited at|on %1", "modified|edited %1",
        "modification|edition date|time|datetime is %1"],
    proposed (.properties Nao.hasTag .tag) .tag "Tag name"
      ["tagged as %1", "has tag %1", "tag is %1", "# %1"]]

/-- The phrasings of relations to other resources. -/
def ofRelations : List Phrasing :=
  [proposed (.subqueries Nie.relatedTo) .none "Match items related to others"
    ["related to ... ,", "related to ..."]]

/-- The phrasings that are tried after dates have been folded. -/
def afterDates : List Phrasing := ofComparators ++ ofProperties ++ ofRelations

end Phrasing

end DesktopSearch
