import DesktopSearch.Ontology.Basic

/-!
# The desktop ontology

What is known about the vocabulary that queries are written in: the ranges of its properties, the
class hierarchy, and the properties that have at most one value.
-/

namespace DesktopSearch.Ontology

open Vocabulary

/-- The ranges of the desktop properties. -/
def desktopRanges : List (Uri × Uri) := [
  (Nie.title, Xsd.string),
  (Nie.url, Xsd.string),
  (Nie.plainTextContent, Xsd.string),
  (Nie.created, Xsd.dateTime),
  (Nie.lastModified, Xsd.dateTime),
  (Nie.contentSize, Xsd.integer),
  (Nie.relatedTo, Nie.informationElement),
  (Nfo.fileName, Xsd.string),
  (Nfo.fileSize, Xsd.integer),
  (Nfo.fileCreated, Xsd.dateTime),
  (Nfo.fileLastModified, Xsd.dateTime),
  (Nfo.fileOwner, Nco.contact),
  (Nmo.messageSubject, Xsd.string),
  (Nmo.messageFrom, Nco.contact),
  (Nmo.messageRecipient, Nco.contact),
  (Nmo.sentDate, Xsd.dateTime),
  (Nmo.receivedDate, Xsd.dateTime),
  (Nco.fullname, Xsd.string),
  (Nco.emailAddress, Xsd.string),
  (Nco.creator, Nco.contact),
  (Nmm.performer, Nco.contact),
  (Ncal.summary, Xsd.string),
  (Ncal.description, Xsd.string),
  (Nao.hasTag, Nao.tag),
  (Nao.numericRating, Xsd.integer),
  (Nao.description, Xsd.string),
  (Nao.userVisible, Xsd.boolean),
  (Rdfs.label, Xsd.string),
  (Rdf.type, Rdfs.classType)]

/-- The desktop classes with their parents. -/
def desktopParents : List (Uri × Uri) := [
  (Nfo.fileDataObject, Nie.informationElement),
  (Nfo.folder, Nfo.fileDataObject),
  (Nfo.document, Nie.informationElement),
  (Nfo.image, Nie.informationElement),
  (Nfo.video, Nie.informationElement),
  (Nfo.audio, Nie.informationElement),
  (Nmo.message, Nie.informationElement),
  (Nmo.email, Nmo.message),
  (Ncal.event, Nie.informationElement)]

/-- The desktop properties that have at most one value. -/
def desktopSingleValued : List Uri := [
  Nie.url, Nie.created, Nie.lastModified, Nie.contentSize, Nfo.fileName, Nfo.fileSize,
  Nfo.fileCreated, Nfo.fileLastModified, Nmo.sentDate, Nmo.receivedDate, Nao.numericRating,
  Nao.userVisible]

/-- The facts about the desktop vocabulary. -/
def Table.desktop : Table where
  ranges := desktopRanges
  parents := desktopParents
  singleValued := desktopSingleValued

/-- The knowledge about the desktop vocabulary. -/
def desktop : Ontology := Table.desktop.toOntology

end DesktopSearch.Ontology
