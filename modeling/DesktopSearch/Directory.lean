import DesktopSearch.Fault
import DesktopSearch.Vocabulary

/-!
# The directory

Tags and people are resources that are named by their labels. A store answers queries with rows of
bindings, and `Directory.ofStore` makes three lists out of its rows: the tags by their labels, and the
people by their names and by their addresses. A list is sorted and has every label once, with the least
resource that bears it, so that the order of the rows does not matter. A store that does not answer has
no rows. `Lookups` are the lists that have been looked up, each of which is kept.
-/

namespace DesktopSearch

open Vocabulary

/-! ## Stores -/

/-- A row of an answer: the variables that are bound, with their values. -/
abbrev Row := List (String × String)

/-- The value of a variable. -/
def Row.binding? (row : Row) (name : String) : Option String :=
  (row.find? (·.1 == name)).map Prod.snd

/-- What answers queries. -/
abbrev Store := String → Except Fault (List Row)

/-- The rows of an answer, none if there is no store or it does not answer. -/
def Store.rows (store : Option Store) (query : String) : List Row :=
  match store with
  | none => []
  | some answer =>
    match answer query with
    | .ok rows => rows
    | .error _ => []

/-! ## Labels -/

/-- Labels with the resources they name. -/
abbrev Labels := List (String × Uri)

namespace Labels

/-- The order of the list: by label, then by resource. -/
def le (a b : String × Uri) : Bool :=
  decide (a.1 < b.1) || (a.1 == b.1 && decide (a.2.text ≤ b.2.text))

/-- The list without the entries whose label is that of the entry before. -/
def firstOfEach : Labels → Labels
  | [] => []
  | [a] => [a]
  | a :: b :: rest =>
    match firstOfEach (b :: rest) with
    | [] => [a]
    | c :: others => if a.1 = c.1 then a :: others else a :: c :: others

/-- The sorted list of some entries, with the first entry of every label. -/
def ofEntries (entries : List (String × Uri)) : Labels :=
  firstOfEach (entries.mergeSort le)

/-- The resource that a label names. -/
def find? (labels : Labels) (label : String) : Option Uri :=
  (List.find? (·.1 == label) labels).map Prod.snd

end Labels

/-! ## The directory -/

/-- The two queries that fill the directory. -/
inductive Inquiry where
  | tags | people
  deriving DecidableEq, Repr

namespace Inquiry

/-- The text of a query. -/
def text : Inquiry → String
  | tags =>
    "select ?tag ?label where \x7b ?tag a " ++ Nao.tag.n3 ++ " . ?tag " ++ Rdfs.label.n3 ++
      " ?label . \x7d"
  | people =>
    "select distinct ?c ?fullname ?email where \x7b ?c a " ++ Nco.contact.n3 ++ " . \x7b ?c " ++
      Nco.fullname.n3 ++ " ?fullname . \x7d OPTIONAL \x7b ?c " ++ Nco.hasEmailAddress.n3 ++
      " ?address . ?address " ++ Nco.emailAddress.n3 ++ " ?email . \x7d \x7d"

end Inquiry

/-- The labels of tags, and those of people: their names and their addresses. -/
structure Directory where
  tags : Labels := []
  names : Labels := []
  addresses : Labels := []

namespace Directory

/-- The label and the resource of a row. -/
def pair? (resource label : String) (row : Row) : Option (String × Uri) := do
  return (← row.binding? label, ⟨← row.binding? resource⟩)

/-- The label of a row, unless it is empty, and the resource. -/
def filledPair? (resource label : String) (row : Row) : Option (String × Uri) :=
  (pair? resource label row).filter (!·.1.isEmpty)

/-- The directory of a store. -/
def ofStore (store : Option Store) : Directory :=
  let tags := Store.rows store Inquiry.tags.text
  let people := Store.rows store Inquiry.people.text
  { tags := Labels.ofEntries (tags.filterMap (pair? "tag" "label"))
    names := Labels.ofEntries (people.filterMap (filledPair? "c" "fullname"))
    addresses := Labels.ofEntries (people.filterMap (filledPair? "c" "email")) }

end Directory

/-! ## Looking up -/

/-- The lists of a directory that have been looked up: the tags, and the names and addresses of people. -/
structure Lookups where
  tags : Option Labels := none
  people : Option (Labels × Labels) := none

namespace Lookups

/-- Whether the lists that a query fills have been looked up. -/
def knows (l : Lookups) : Inquiry → Bool
  | .tags => l.tags.isSome
  | .people => l.people.isSome

/-- Looks up the lists that a query fills. Those that have been looked up before stay. -/
def learn (l : Lookups) (d : Directory) : Inquiry → Lookups
  | .tags => { l with tags := l.tags.or (some d.tags) }
  | .people => { l with people := l.people.or (some (d.names, d.addresses)) }

/-- The lists that have been looked up, and the others as they are in a directory. -/
def complete (l : Lookups) (d : Directory) : Directory where
  tags := l.tags.getD d.tags
  names := (l.people.map Prod.fst).getD d.names
  addresses := (l.people.map Prod.snd).getD d.addresses

end Lookups

end DesktopSearch
