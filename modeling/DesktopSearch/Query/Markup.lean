import DesktopSearch.Query.Basic
import DesktopSearch.Term.Markup

/-!
# Queries as documents

A query is written as an element that holds its paging and flags as attributes and, in this order, its
term, the fetched properties, the folders it is restricted to and those it leaves out. Reading is
forgiving about attributes, but a fetched property without an identifier, a folder without a place, a
folder in a query that is no file query, and a document of another kind make the document unreadable;
of several terms the last one counts.
-/

namespace DesktopSearch.Query

/-! ## Writing -/

/-- The text of a switch. -/
def switchText (b : Bool) : String := if b then "true" else "false"

/-- The names of the flags that are set. -/
def flagsText (flags : QueryFlags) : String :=
  "|".intercalate
    ((if flags.noResultRestrictions then ["NoResultRestrictions"] else []) ++
      if flags.withExcerpt then ["WithFullTextExcerpt"] else [])

/-- The element of a fetched property. -/
def requestElement (r : RequestProperty) : Xml :=
  .element "requestProperty" [("uri", r.property.text), ("optional", switchText r.optional)] []

/-- The element of a folder to search in. -/
def includeElement (f : Folder) : Xml :=
  .element "folder" [("url", f.url), ("include", "true"), ("recursive", switchText f.recursive)] []

/-- The element of a folder to leave out. -/
def excludeElement (url : String) : Xml :=
  .element "folder" [("url", url), ("include", "false")] []

/-- The name of the element of a query. -/
def elementName (q : Query) : String := if q.isFileQuery then "filequery" else "query"

/-- The attributes of the element of a query. -/
def attributes (q : Query) : List (String × String) :=
  (if q.isFileQuery then
    [("queryFiles", switchText q.fileMode.wantsFiles),
      ("queryFolders", switchText q.fileMode.wantsFolders)]
    else []) ++
  [("limit", toString q.limit), ("offset", toString q.offset),
    ("fullTextScoring", switchText q.scoring), ("fullTextScoringOrder", q.scoringOrder.name),
    ("flags", flagsText q.flags)]

/-- The element of a query. -/
def toXml (q : Query) : Xml :=
  .element q.elementName q.attributes
    (q.term.toXml ++ q.requestProperties.map requestElement ++
      q.includeFolders.map includeElement ++ q.excludeFolders.map excludeElement)

/-- The first line of a document. -/
def prolog : String := "<?xml version=\"1.0\" encoding=\"UTF-8\"?>"

/-- The query as a document. -/
def markup (q : Query) : String := prolog ++ q.toXml.render

/-! ## Reading -/

/-- The flags that are named between bars, blanks around the names aside. -/
def readFlags (s : String) : QueryFlags :=
  let names := (Text.splitAt (· == '|') s.toList).map fun name => String.ofList (Text.trim name)
  ⟨names.contains "NoResultRestrictions", names.contains "WithFullTextExcerpt"⟩

/-- A count, zero if it cannot be read. -/
def readCount (s : Option String) : Nat :=
  (s.bind fun s => Text.readNat? Text.nat64Limit (Text.trim s.toList)).getD 0

/-- The query without content that the attributes of an element describe. -/
def ofAttributes? (name : String) (attributes : List (String × String)) : Option Query :=
  let get := Xml.attribute? attributes
  let described (isFileQuery : Bool) (fileMode : FileMode) : Query := {
    isFileQuery
    fileMode
    limit := readCount (get "limit")
    offset := readCount (get "offset")
    scoring := Xml.flag attributes "fullTextScoring"
    scoringOrder := .ofName ((get "fullTextScoringOrder").getD "asc")
    flags := readFlags ((get "flags").getD "") }
  match name with
  | "query" => some (described false .both)
  | "filequery" =>
    some (described true
      (.ofSwitches (Xml.flag attributes "queryFiles") (Xml.flag attributes "queryFolders")))
  | _ => none

/-- Takes one piece of the content of a query into account. -/
def addContent? (q : Query) (x : Xml) : Option Query :=
  match x with
  | .text _ => some q
  | .element "requestProperty" attributes _ =>
    (Xml.attribute? attributes "uri").map fun u =>
      q.addRequestProperty ⟨⟨u⟩, Xml.flag attributes "optional"⟩
  | .element "folder" attributes _ =>
    if !q.isFileQuery then none
    else
      (Xml.attribute? attributes "url").map fun url =>
        if Xml.attribute? attributes "include" = some "false" then q.addExcludeFolder url
        else q.addIncludeFolder ⟨url, Xml.attribute? attributes "recursive" != some "false"⟩
  | x => some { q with term := Term.ofXml x }

/-- The query that an element stands for. -/
def ofXml? : Xml → Option Query
  | .text _ => none
  | .element name attributes content =>
    (ofAttributes? name attributes).bind fun q => content.foldlM addContent? q

/-- The query that a document stands for, the empty query if it cannot be read. -/
def ofMarkup (document : String) : Query :=
  ((Xml.read? document.toList).bind ofXml?).getD {}

end DesktopSearch.Query
