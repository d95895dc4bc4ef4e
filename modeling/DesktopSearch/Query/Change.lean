import DesktopSearch.Query.Basic

/-!
# Changes of queries

What is done to a query once there is one: its parts are set, folders and fetched properties are added, and
its term is joined to others or negated.
-/

namespace DesktopSearch.Query

/-- One change. -/
inductive Change where
  | setTerm (term : Term)
  | setLimit (limit : Nat)
  | setOffset (offset : Nat)
  | setFlags (flags : QueryFlags)
  | setScoring (scoring : Bool)
  | setScoringOrder (order : SortOrder)
  | setFileMode (fileMode : FileMode)
  | addIncludeFolder (folder : Folder)
  | addExcludeFolder (url : String)
  | addRequestProperty (property : RequestProperty)
  | setRequestProperties (properties : List RequestProperty)
  | joinTerm (k : Connective) (term : Term)
  | negate

/-- The query after a change. -/
def apply (q : Query) : Change → Query
  | .setTerm term => { q with term }
  | .setLimit limit => { q with limit }
  | .setOffset offset => { q with offset }
  | .setFlags flags => { q with flags }
  | .setScoring scoring => { q with scoring }
  | .setScoringOrder order => { q with scoringOrder := order }
  | .setFileMode fileMode => q.setFileMode fileMode
  | .addIncludeFolder folder => q.addIncludeFolder folder
  | .addExcludeFolder url => q.addExcludeFolder url
  | .addRequestProperty property => q.addRequestProperty property
  | .setRequestProperties properties => { q with requestProperties := properties }
  | .joinTerm k term => q.joinTerm k term
  | .negate => q.negate

end DesktopSearch.Query
