import DesktopSearch.Ontology.Basic
import DesktopSearch.Query.Basic

/-!
# Terms ready for lowering

What a query says beside its term is made part of the term (`wholeTerm`): the file mode, the folders and
the fetched properties. The normal form of that term is then changed in two steps that keep its
meaning. `refine` merges alternative types into one restriction and moves comparisons with a named
variable to the front of their group. `anchor` gives groups that hold nothing but negations a pattern
for the negations to filter.
-/

namespace DesktopSearch.Sparql

open Vocabulary

/-! ## The term of a query -/

/-- The start of the places in a folder, as a regular expression. -/
def folderPattern (url : String) : String :=
  let place := String.ofList (Text.literalPattern url.toList)
  if place.toList.getLast? = some '/' then place else place ++ "/"

/-- The places in a folder to search in: below it, or directly in it. -/
def includePattern (f : Folder) : String :=
  if f.recursive then "(^" ++ folderPattern f.url ++ ")"
  else "(^" ++ folderPattern f.url ++ "[^/]*$)"

/-- The restriction to places that a regular expression matches. -/
def placeMatches (pattern : String) : Term :=
  Term.compare (some Nie.url) (Term.ofLiteral (.string pattern)) .regexp

/-- The restriction to the folders that a query includes, without those it excludes. -/
def folderFilter (q : Query) : Term :=
  let include_ := if q.includeFolders.isEmpty then Term.nothing
    else placeMatches ("|".intercalate (q.includeFolders.map includePattern))
  let exclude := if q.excludeFolders.isEmpty then Term.nothing
    else
      Term.negation .empty
        (placeMatches ("^(" ++ "|".intercalate (q.excludeFolders.map folderPattern) ++ ")"))
  include_ &&& exclude

/-- The restriction to files or folders. -/
def modeFilter : FileMode → Term
  | .files => Term.types .empty [Nfo.fileDataObject] &&&
      Term.negation .empty (Term.types .empty [Nfo.folder])
  | .folders => Term.types .empty [Nfo.folder]
  | .both => Term.types .empty [Nfo.fileDataObject]

/-- The comparison that fetches a property under a name. -/
def fetch (property : Uri) (name : String) : Term :=
  .comparison .empty { property := some property, comparator := .equal, variableName := some name }
    Term.nothing

/-- Joins a fetched property to a term. An optional one is left out when results are only counted. -/
def addRequest (counting : Bool) (t : Term) (request : RequestProperty × Nat) : Term :=
  let (r, index) := request
  let fetched := fetch r.property (Query.requestName index)
  if !r.optional then t &&& fetched
  else if !counting then t &&& Term.optional .empty fetched
  else t

/-- The term of a query with everything the query says beside it. -/
def wholeTerm (q : Query) (counting : Bool) : Term :=
  let t := if q.isFileQuery then Term.allOf [q.term, modeFilter q.fileMode, folderFilter q]
    else q.term
  q.requestProperties.zipIdx.foldl (addRequest counting) t

/-! ## Types and named comparisons -/

/-- The types of a list that are no subclass of another one, each once. -/
def widest (o : Ontology) (types : List Uri) : List Uri :=
  let kept := types.filter fun t => !types.any fun other => other != t && o.isSubclassOf t other
  kept.foldl (fun seen t => if seen.contains t then seen else seen ++ [t]) []

/-- Whether a term is a comparison with a named variable. -/
def isNamed : Term → Bool
  | .comparison _ c _ => c.variableName.isSome
  | _ => false

/-- The alternatives, or what is left of them when there are fewer than two. -/
def alternatives : List Term → Term
  | [] => Term.nothing
  | [t] => t
  | ts => Term.oneOf ts

mutual

/-- Merges the types of alternatives and moves named comparisons to the front. -/
def refine (o : Ontology) : Term → Term
  | .group _ .or ts =>
    let merged := widest o (ts.filterMap Term.types?).flatten
    alternatives (refineOthers o ts ++ if merged.isEmpty then [] else [Term.types .empty merged])
  | .group _ .and ts => Term.allOf (refineWhere o isNamed ts ++ refineWhere o (!isNamed ·) ts)
  | .negation _ t => .negation .empty (refine o t)
  | .optional _ t => .optional .empty (refine o t)
  | .comparison _ c t => .comparison .empty c (refine o t)
  | t => t

/-- The refined members that are no type restrictions. -/
def refineOthers (o : Ontology) : List Term → List Term
  | [] => []
  | t :: ts => if t.types?.isSome then refineOthers o ts else refine o t :: refineOthers o ts

/-- The refined members that satisfy `p`. -/
def refineWhere (o : Ontology) (p : Term → Bool) : List Term → List Term
  | [] => []
  | t :: ts => if p t then refine o t :: refineWhere o p ts else refineWhere o p ts

end

/-! ## Negations -/

/-- The comparison that holds of everything with a type. -/
def typeAnchor : Term := Term.compare (some Rdf.type) Term.nothing .equal

/-- Whether a member of a group binds the subject, so that negations beside it filter something. -/
def isAnchor : Term → Bool
  | .comparison .. => true
  | .types .. => true
  | .literal .. => true
  | _ => false

mutual

/-- Gives groups that hold nothing but negations something to filter. -/
def anchor : Term → Term
  | .group _ .and ts =>
    let needed := ts.any Term.isNegation && !ts.any isAnchor
    Term.allOf (anchorMembers ts ++ if needed then [typeAnchor] else [])
  | .group _ .or ts => Term.oneOf (anchorAll ts)
  | .negation s t => Term.allOf [.negation s t, typeAnchor]
  | .optional _ t => .optional .empty (anchor t)
  | .comparison _ c t => .comparison .empty c (anchor t)
  | t => t

/-- Anchors the members of a group, but for its negations. -/
def anchorMembers : List Term → List Term
  | [] => []
  | t :: ts => (if t.isNegation then t else anchor t) :: anchorMembers ts

/-- Anchors all terms of a list. -/
def anchorAll : List Term → List Term
  | [] => []
  | t :: ts => anchor t :: anchorAll ts

end

/-- The term that is lowered for a query. -/
def prepared (o : Ontology) (q : Query) (counting : Bool) : Term :=
  anchor (refine o (wholeTerm q counting).optimize)

end DesktopSearch.Sparql
