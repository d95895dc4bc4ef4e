import DesktopSearch.Uri

/-!
# Vocabulary

The classes and properties of the desktop ontologies that queries are made of, grouped by the
ontology that defines them.
-/

namespace DesktopSearch.Vocabulary

/-! ## rdf -/

/-- A name of the `rdf` vocabulary. -/
def Rdf.name (word : String) : Uri :=
  ⟨"http://www.w3.org/1999/02/22-rdf-syntax-ns#" ++ word⟩

def Rdf.type : Uri := Rdf.name "type"

/-! ## rdfs -/

/-- A name of the `rdfs` vocabulary. -/
def Rdfs.name (word : String) : Uri :=
  ⟨"http://www.w3.org/2000/01/rdf-schema#" ++ word⟩

def Rdfs.label : Uri := Rdfs.name "label"
def Rdfs.classType : Uri := Rdfs.name "Class"

/-! ## xsd -/

/-- A name of the `xsd` vocabulary. -/
def Xsd.name (word : String) : Uri :=
  ⟨"http://www.w3.org/2001/XMLSchema#" ++ word⟩

def Xsd.string : Uri := Xsd.name "string"
def Xsd.int : Uri := Xsd.name "int"
def Xsd.integer : Uri := Xsd.name "integer"
def Xsd.long : Uri := Xsd.name "long"
def Xsd.double : Uri := Xsd.name "double"
def Xsd.float : Uri := Xsd.name "float"
def Xsd.decimal : Uri := Xsd.name "decimal"
def Xsd.boolean : Uri := Xsd.name "boolean"
def Xsd.dateTime : Uri := Xsd.name "dateTime"

/-! ## nao -/

/-- A name of the `nao` vocabulary. -/
def Nao.name (word : String) : Uri :=
  ⟨"http://www.semanticdesktop.org/ontologies/2007/08/15/nao#" ++ word⟩

def Nao.tag : Uri := Nao.name "Tag"
def Nao.hasTag : Uri := Nao.name "hasTag"
def Nao.numericRating : Uri := Nao.name "numericRating"
def Nao.description : Uri := Nao.name "description"
def Nao.userVisible : Uri := Nao.name "userVisible"

/-! ## nie -/

/-- A name of the `nie` vocabulary. -/
def Nie.name (word : String) : Uri :=
  ⟨"http://www.semanticdesktop.org/ontologies/2007/01/19/nie#" ++ word⟩

def Nie.informationElement : Uri := Nie.name "InformationElement"
def Nie.url : Uri := Nie.name "url"
def Nie.title : Uri := Nie.name "title"
def Nie.created : Uri := Nie.name "created"
def Nie.lastModified : Uri := Nie.name "lastModified"
def Nie.contentSize : Uri := Nie.name "contentSize"
def Nie.relatedTo : Uri := Nie.name "relatedTo"
def Nie.plainTextContent : Uri := Nie.name "plainTextContent"

/-! ## nfo -/

/-- A name of the `nfo` vocabulary. -/
def Nfo.name (word : String) : Uri :=
  ⟨"http://www.semanticdesktop.org/ontologies/2007/03/22/nfo#" ++ word⟩

def Nfo.fileDataObject : Uri := Nfo.name "FileDataObject"
def Nfo.folder : Uri := Nfo.name "Folder"
def Nfo.document : Uri := Nfo.name "Document"
def Nfo.image : Uri := Nfo.name "Image"
def Nfo.video : Uri := Nfo.name "Video"
def Nfo.audio : Uri := Nfo.name "Audio"
def Nfo.fileName : Uri := Nfo.name "fileName"
def Nfo.fileSize : Uri := Nfo.name "fileSize"
def Nfo.fileCreated : Uri := Nfo.name "fileCreated"
def Nfo.fileLastModified : Uri := Nfo.name "fileLastModified"
def Nfo.fileOwner : Uri := Nfo.name "fileOwner"

/-! ## nmo -/

/-- A name of the `nmo` vocabulary. -/
def Nmo.name (word : String) : Uri :=
  ⟨"http://www.semanticdesktop.org/ontologies/2007/03/22/nmo#" ++ word⟩

def Nmo.message : Uri := Nmo.name "Message"
def Nmo.email : Uri := Nmo.name "Email"
def Nmo.messageSubject : Uri := Nmo.name "messageSubject"
def Nmo.messageFrom : Uri := Nmo.name "messageFrom"
def Nmo.messageRecipient : Uri := Nmo.name "messageRecipient"
def Nmo.sentDate : Uri := Nmo.name "sentDate"
def Nmo.receivedDate : Uri := Nmo.name "receivedDate"

/-! ## nco -/

/-- A name of the `nco` vocabulary. -/
def Nco.name (word : String) : Uri :=
  ⟨"http://www.semanticdesktop.org/ontologies/2007/03/22/nco#" ++ word⟩

def Nco.contact : Uri := Nco.name "Contact"
def Nco.fullname : Uri := Nco.name "fullname"
def Nco.hasEmailAddress : Uri := Nco.name "hasEmailAddress"
def Nco.emailAddress : Uri := Nco.name "emailAddress"
def Nco.creator : Uri := Nco.name "creator"

/-! ## nmm -/

/-- A name of the `nmm` vocabulary. -/
def Nmm.name (word : String) : Uri :=
  ⟨"http://www.semanticdesktop.org/ontologies/2009/02/19/nmm#" ++ word⟩

def Nmm.performer : Uri := Nmm.name "performer"

/-! ## ncal -/

/-- A name of the `ncal` vocabulary. -/
def Ncal.name (word : String) : Uri :=
  ⟨"http://www.semanticdesktop.org/ontologies/2007/04/02/ncal#" ++ word⟩

def Ncal.event : Uri := Ncal.name "Event"
def Ncal.summary : Uri := Ncal.name "summary"
def Ncal.description : Uri := Ncal.name "description"

end DesktopSearch.Vocabulary
