import DesktopSearch.Ontology.Desktop
import DesktopSearch.Proofs.Ontology.Subclass

/-!
# The desktop ontology

Two things about the desktop vocabulary that queries rely on. Its classes form a hierarchy without
cycles (`depth_lt_of_isSubclassOf`). And the properties that can be put into words are of two sorts : the
values of the `literalProperties` are literals, those of the `resourceProperties` are resources.
-/

namespace DesktopSearch

open Vocabulary

namespace Ontology

/-! ## Classes -/

/-- How far a desktop class is below the topmost one. -/
def depth (u : Uri) : Nat :=
  if u = Nie.informationElement then 0 else if u = Nfo.folder ∨ u = Nmo.email then 2 else 1

/-- A desktop class is deeper than its superclasses. -/
theorem depth_lt_of_isSubclassOf {child parent : Uri}
    (h : desktop.isSubclassOf child parent = true) : depth parent < depth child :=
  (Table.isBelow_of_isSubclassOf h).depth_lt (by decide +kernel)

/-! ## Ranges -/

/-- The desktop properties whose values are literals. -/
def literalProperties : List Uri :=
  [Nie.title, Nie.contentSize, Nie.created, Nie.lastModified, Nfo.fileName, Nfo.fileSize,
    Nfo.fileCreated, Nfo.fileLastModified, Nmo.messageSubject, Nmo.sentDate, Nmo.receivedDate,
    Nco.fullname, Ncal.summary, Ncal.description, Nao.numericRating, Nao.description, Rdfs.label]

/-- The desktop properties whose values are resources. -/
def resourceProperties : List Uri :=
  [Nie.relatedTo, Nfo.fileOwner, Nmo.messageFrom, Nmo.messageRecipient, Nmm.performer, Nao.hasTag]

theorem literalRange?_isSome {p : Uri} (h : p ∈ literalProperties) :
    (desktop.literalRange? p).isSome = true := by
  have hall : ∀ p ∈ literalProperties, (desktop.literalRange? p).isSome = true := by
    decide +kernel
  exact hall p h

theorem literalRange?_eq_none {p : Uri} (h : p ∈ resourceProperties) :
    desktop.literalRange? p = none := by
  have hall : ∀ p ∈ resourceProperties, desktop.literalRange? p = none := by decide +kernel
  exact hall p h

end Ontology

end DesktopSearch
