import DesktopSearch.Sparql.Lowering
import DesktopSearch.Sparql.Preparation
import DesktopSearch.Sparql.Squeeze

/-!
# Compilation

`compile` writes a query as text: the patterns of its prepared term, restricted to results that are
visible to the user, under one of three heads. A selection lists the results with their columns, sorted
and cut to a page; the other two forms ask whether there is any result, and how many there are. A query
that cannot be expressed compiles to the empty text.
-/

namespace DesktopSearch.Sparql

open Vocabulary

/-- How a query is compiled. -/
structure Flags where
  /-- Ask whether there is any result. -/
  ask : Bool := false
  /-- Count the results. -/
  count : Bool := false
  /-- Statements that use the inverse of a property count too. -/
  inverses : Bool := false
  /-- Results need not be visible to the user. -/
  noResultRestrictions : Bool := false
  /-- Select an excerpt of the matched text. -/
  withExcerpt : Bool := false
  deriving DecidableEq

namespace Flags

/-- The flags together with those of a query. -/
def withQuery (f : Flags) (q : QueryFlags) : Flags :=
  { f with
    noResultRestrictions := f.noResultRestrictions || q.noResultRestrictions
    withExcerpt := f.withExcerpt || q.withExcerpt }

/-- Whether the results themselves are not asked for. -/
def counting (f : Flags) : Bool := f.ask || f.count

end Flags

/-! ## The patterns of a query -/

/-- The restriction to results of a class that is visible to the user. -/
def visibility (v : Variable) : Pattern :=
  .holds [.instanceOf .result (.var v),
    .triple (.var v) (.uri Nao.userVisible) (.literal (.boolean true))]

/-- The patterns of a query and what was decided on the way. -/
def body? (o : Ontology) (q : Query) (f : Flags) : Option (List Pattern × Lowering) := do
  let term := prepared o q f.counting
  if !term.isValid then none
  let setting : Setting := ⟨o, f.inverses, q.scoring && !f.counting⟩
  let (patterns, s) ← lower setting term .result {}
  if patterns.isEmpty then none
  else if q.isFileQuery || f.noResultRestrictions then some (patterns, s)
  else
    let (v, s) ← freshVariable s
    some (patterns ++ [visibility v], s)

/-- The braces of a query around its patterns. -/
def whereText (patterns : List Pattern) : String :=
  "where \x7b " ++ Pattern.textAll patterns ++ " \x7d"

/-! ## Columns and order -/

/-- The variable that the score of a result is selected as. -/
def scoreName : String := "?fullTextScore"

/-- The variable that the excerpt of a result is selected as. -/
def excerptName : String := "?fullTextExcerpt"

/-- The scores of the searches, if they were asked for. -/
def scores (s : Lowering) : List Variable := s.searches.filterMap (·.score)

/-- The columns of a query beside the result. -/
def selected (scoring : Bool) (s : Lowering) : List String :=
  s.columns.map Column.text ++
    if scoring && !s.searches.isEmpty then
      ["(" ++ "+".intercalate ((scores s).map Variable.text) ++ ") as " ++ scoreName]
    else []

/-- A word of an excerpt: stars at its end and single quotes are left out. -/
def excerptWord (w : List Char) : String :=
  let bare := (w.reverse.dropWhile (· == '*')).reverse
  "'" ++ String.ofList (bare.filter (· != '\'')) ++ "'"

/-- The excerpt column, if anything is searched for: the words of all searches, in the text of the
first. -/
def excerpt (searches : List Search) : List String :=
  match searches with
  | [] => []
  | first :: _ =>
    let words := searches.flatMap fun f => (Text.words f.text.toList).map excerptWord
    ["bif:search_excerpt(bif:vector(" ++ ", ".intercalate words ++ "), " ++ first.variable_.text ++
      ") as " ++ excerptName]

/-- A sort key as text. -/
def orderText (expression : String) : SortOrder → String
  | .ascending => "ASC(" ++ expression ++ ")"
  | .descending => "DESC(" ++ expression ++ ")"

/-- The order of the results: heavier keys come first, keys of one weight in the order they were met, and
the score has no weight. -/
def orderClause (q : Query) (scoring : Bool) (s : Lowering) : String :=
  let keys := s.sortKeys.map (fun k => (k.weight, orderText k.expression.text k.order)) ++
    if scoring && !s.searches.isEmpty then [(0, orderText scoreName q.scoringOrder)] else []
  if keys.isEmpty then ""
  else
    let sorted := keys.mergeSort fun a b => decide (b.1 ≤ a.1)
    " ORDER BY " ++ " ".intercalate (sorted.map Prod.snd)

/-- The part of the results that is asked for. -/
def pageClause (q : Query) : String :=
  (if q.offset = 0 then "" else " OFFSET " ++ toString q.offset) ++
    if q.limit = 0 then "" else " LIMIT " ++ toString q.limit

/-! ## The whole query -/

/-- The text of a query before its blanks are squeezed. -/
def assemble (q : Query) (f : Flags) (patterns : List Pattern) (s : Lowering) : String :=
  let base := whereText patterns
  let scoring := q.scoring && !f.counting
  let columns := selected scoring s
  if f.count then
    if columns.isEmpty then "select count(distinct ?r) as ?cnt " ++ base
    else
      "select count(*) as ?cnt where \x7b \x7b select distinct ?r " ++ " ".intercalate columns ++
        " " ++ base ++ " \x7d \x7d"
  else if f.ask then "ask " ++ base
  else
    let columns := columns ++ if f.withExcerpt then excerpt s.searches else []
    "select distinct ?r " ++ " ".intercalate columns ++ " " ++ base ++ orderClause q scoring s ++
      pageClause q

/-- The text of a query, empty if it cannot be expressed. -/
def compile (o : Ontology) (q : Query) (flags : Flags) : String :=
  let f := flags.withQuery q.flags
  match body? o q f with
  | some (patterns, s) => String.ofList (squeeze (assemble q f patterns s).toList)
  | none => ""

end DesktopSearch.Sparql
