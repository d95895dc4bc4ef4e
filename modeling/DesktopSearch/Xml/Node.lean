import DesktopSearch.Xml.Escape

/-!
# Elements

The trees that terms and queries are written as: elements with attributes and content, and runs of
text between them. Elements that carry their meaning in attributes are closed at once when they are
empty; all others have a closing tag.
-/

namespace DesktopSearch

/-- A piece of a document. -/
inductive Xml where
  | text (content : String)
  | element (name : String) (attributes : List (String × String)) (content : List Xml)

namespace Xml

/-- The value of the first attribute with a name. -/
def attribute? (attributes : List (String × String)) (name : String) : Option String :=
  (attributes.find? (·.1 == name)).map Prod.snd

/-- Whether an attribute has the value `true`. -/
def flag (attributes : List (String × String)) (name : String) : Bool :=
  attribute? attributes name == some "true"

/-- Whether a piece is an element. -/
def isElement : Xml → Bool
  | element .. => true
  | text _ => false

/-- The text of a piece that is no element. -/
def ownText : Xml → String
  | text s => s
  | element .. => ""

/-- The runs of text of a content, put together. -/
def textOf (content : List Xml) : String :=
  content.foldl (fun s x => s ++ x.ownText) ""

/-! ## Writing -/

/-- The elements that are closed at once when they are empty. -/
def closesAtOnce (name : String) : Bool :=
  ["resource", "type", "also", "comparison", "requestProperty", "folder"].contains name

/-- An attribute with the blank before it. -/
def renderAttribute (a : String × String) : String :=
  " " ++ a.1 ++ "=\"" ++ String.ofList (escape a.2.toList) ++ "\""

/-- The opening of a tag with its attributes. -/
def renderOpening (name : String) (attributes : List (String × String)) : String :=
  "<" ++ name ++ String.join (attributes.map renderAttribute)

mutual

/-- A piece as text. -/
def render : Xml → String
  | text s => String.ofList (escape s.toList)
  | element name attributes content =>
    if content.isEmpty && closesAtOnce name then renderOpening name attributes ++ "/>"
    else renderOpening name attributes ++ ">" ++ renderAll content ++ "</" ++ name ++ ">"

/-- A content as text. -/
def renderAll : List Xml → String
  | [] => ""
  | x :: xs => x.render ++ renderAll xs

end

end Xml

end DesktopSearch
