import DesktopSearch.Vocabulary

/-!
# Contexts

The kind of resource that was mentioned last decides which property a word like "author" or "size" means.
-/

namespace DesktopSearch

open Vocabulary

/-- The kinds of resources with properties of their own. -/
inductive ResourceContext where
  | general | files | audio | message | contact | event
  deriving DecidableEq, Repr

namespace ResourceContext

/-- The name of a context. -/
def name : ResourceContext → String
  | general => "general"
  | files => "files"
  | audio => "audio"
  | message => "message"
  | contact => "contact"
  | event => "event"

/-- The context of a class. -/
def ofType (u : Uri) : ResourceContext :=
  if [Nfo.fileDataObject, Nfo.image, Nfo.video, Nfo.document, Nfo.folder].contains u then files
  else if u = Nfo.audio then audio
  else if u = Nmo.message ∨ u = Nmo.email then message
  else if u = Nco.contact then contact
  else if u = Ncal.event then event
  else general

/-- The property that every resource may have under a name. -/
def common? : String → Option Uri
  | "author" => some Nfo.fileOwner
  | "title" => some Nie.title
  | "size" => some Nie.contentSize
  | "name" => some Rdfs.label
  | "created" => some Nie.created
  | "modified" => some Nie.lastModified
  | "description" => some Nao.description
  | _ => none

/-- The property of files under a name. -/
def ofFiles? : String → Option Uri
  | "size" => some Nfo.fileSize
  | "name" => some Nfo.fileName
  | "created" => some Nfo.fileCreated
  | "modified" => some Nfo.fileLastModified
  | _ => none

/-- The property that only resources of the context have under a name. -/
def specific? (c : ResourceContext) (name : String) : Option Uri :=
  match c with
  | general => none
  | files => ofFiles? name
  | audio => if name = "author" then some Nmm.performer else ofFiles? name
  | message =>
    if name = "title" then some Nmo.messageSubject
    else if name = "created" ∨ name = "modified" then some Nmo.receivedDate
    else none
  | contact => if name = "title" ∨ name = "name" then some Nco.fullname else none
  | event =>
    if name = "name" then some Ncal.summary
    else if name = "title" then some Ncal.description
    else none

/-- The property that a name means in the context. -/
def resolve? (c : ResourceContext) (name : String) : Option Uri :=
  (c.specific? name).or (common? name)

/-- The property that a date without a property is about. -/
def dateProperty? (c : ResourceContext) : Option Uri := c.resolve? "modified"

/-- The property that a number without a property is about. -/
def sizeProperty? (c : ResourceContext) : Option Uri := c.resolve? "size"

end ResourceContext

end DesktopSearch
