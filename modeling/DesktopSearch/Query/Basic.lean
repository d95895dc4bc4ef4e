import DesktopSearch.Term.Operators
import DesktopSearch.Term.Optimize

/-!
# Queries

A query is a term together with what the term does not say: paging, the restriction to files and
folders, the properties fetched for every result, full-text scoring and flags. Restricting a query to
files, or to a folder, makes it a file query; such a query is valid even if its term says nothing.
-/

namespace DesktopSearch

/-- What a file query returns. -/
inductive FileMode where
  | files | folders | both
  deriving DecidableEq, Repr

namespace FileMode

/-- Whether files are returned. -/
def wantsFiles : FileMode → Bool
  | folders => false
  | _ => true

/-- Whether folders are returned. -/
def wantsFolders : FileMode → Bool
  | files => false
  | _ => true

/-- The mode with the given switches; none set counts as both set. -/
def ofSwitches : (files folders : Bool) → FileMode
  | true, false => files
  | false, true => folders
  | _, _ => both

end FileMode

/-- A folder to search in. -/
structure Folder where
  url : String
  recursive : Bool
  deriving DecidableEq

/-- A property fetched for every result; an optional one need not be there. -/
structure RequestProperty where
  property : Uri
  optional : Bool
  deriving DecidableEq

/-- Flags that a query carries. -/
structure QueryFlags where
  /-- Results need not be visible to the user. -/
  noResultRestrictions : Bool := false
  /-- An excerpt of the matched text is selected. -/
  withExcerpt : Bool := false
  deriving DecidableEq

/-- A search query. -/
structure Query where
  term : Term := Term.nothing
  limit : Nat := 0
  offset : Nat := 0
  isFileQuery : Bool := false
  fileMode : FileMode := .both
  includeFolders : List Folder := []
  excludeFolders : List String := []
  requestProperties : List RequestProperty := []
  scoring : Bool := false
  scoringOrder : SortOrder := .ascending
  flags : QueryFlags := {}

namespace Query

/-- The query for a term. -/
def ofTerm (term : Term) : Query := { term }

/-- The query for the files and folders that a term holds of. -/
def fileQuery (term : Term) (fileMode : FileMode) : Query :=
  { term, isFileQuery := true, fileMode }

/-- Whether the query asks for anything. -/
def isValid (q : Query) : Bool := q.term.isValid || q.isFileQuery

/-- Restricts the query to files, to folders or to both. -/
def setFileMode (q : Query) (fileMode : FileMode) : Query :=
  { q with isFileQuery := true, fileMode }

/-- Restricts the query to a folder, or to the folders given before and this one. -/
def addIncludeFolder (q : Query) (folder : Folder) : Query :=
  { q with isFileQuery := true, includeFolders := q.includeFolders ++ [folder] }

/-- Leaves out what lies in a folder. -/
def addExcludeFolder (q : Query) (url : String) : Query :=
  { q with isFileQuery := true, excludeFolders := q.excludeFolders ++ [url] }

/-- Fetches one more property. -/
def addRequestProperty (q : Query) (property : RequestProperty) : Query :=
  { q with requestProperties := q.requestProperties ++ [property] }

/-- The name that the fetched property at a place is bound to, counted from one. -/
def requestName (index : Nat) : String := "reqProp" ++ toString (index + 1)

/-- The names of the fetched properties with the properties they stand for. -/
def requestMap (q : Query) : List (String × Uri) :=
  q.requestProperties.zipIdx.map fun (r, i) => (requestName i, r.property)

/-- The query with its term in normal form. -/
def optimized (q : Query) : Query := { q with term := q.term.optimize }

/-- Joins a term to that of the query; all else stays. -/
def joinTerm (k : Connective) (q : Query) (t : Term) : Query := { q with term := Term.join k q.term t }

/-- Joins two queries: their terms are joined, all else is that of the first. -/
def join (k : Connective) (q r : Query) : Query := q.joinTerm k r.term

/-- Negates the term of a query. -/
def negate (q : Query) : Query := { q with term := q.term.negate }

/-- Whether two queries differ in the spans of their terms at most. -/
def same (q r : Query) : Bool :=
  q.term.same r.term && q.limit == r.limit && q.offset == r.offset &&
    q.isFileQuery == r.isFileQuery && q.fileMode == r.fileMode &&
    q.includeFolders == r.includeFolders && q.excludeFolders == r.excludeFolders &&
    q.requestProperties == r.requestProperties && q.scoring == r.scoring &&
    q.scoringOrder == r.scoringOrder && q.flags == r.flags

end Query

end DesktopSearch
