import DesktopSearch.Term.Optimize
import DesktopSearch.Xml.Reader

/-!
# Terms as documents

`toXml` writes a term as an element, nothing for a term that says nothing, and `ofXml` reads an element
back. An element that is unknown, or whose value cannot be read, is a term that says nothing; such
terms are left out of groups, and a negation or an optional part of one says nothing either.
-/

namespace DesktopSearch.Term

/-! ## Writing -/

/-- The name of the element of a group. -/
def groupName : Connective → String
  | .and => "and"
  | .or => "or"

/-- The attributes of a literal: its datatype, and the precision of a date unless it is known to the
second. -/
def literalAttributes (l : Literal) : List (String × String) :=
  ("datatype", l.datatype.text) ::
    match l.moment? with
    | some m => if m.precision = .second then [] else [("granularity", m.precision.name)]
    | none => []

/-- The attributes of a comparison. -/
def comparisonAttributes (c : Comparison) : List (String × String) :=
  (match c.property with
    | some p => [("property", p.text)]
    | none => []) ++
  [("comparator", c.comparator.symbol)] ++
  (match c.variableName with
    | some name => [("varname", name)]
    | none => []) ++
  (match c.aggregate with
    | some a => [("aggregate", a.name)]
    | none => []) ++
  (if c.sortWeight = 0 then []
    else [("sortWeight", toString c.sortWeight), ("sortOrder", c.sortOrder.name)]) ++
  (if c.inverted then [("inverted", "true")] else [])

/-- A run of text, nothing if it is empty. -/
def textContent (s : String) : List Xml :=
  if s.isEmpty then [] else [.text s]

mutual

/-- The element of a term. -/
def toXml : Term → List Xml
  | invalid _ => []
  | literal _ l => [.element "literal" (literalAttributes l) (textContent l.text)]
  | resource _ u => [.element "resource" [("uri", u.text)] []]
  | types _ [] => [.element "type" [("uri", "")] []]
  | types _ (u :: us) =>
    [.element "type" [("uri", u.text)] (us.map fun v => .element "also" [("uri", v.text)] [])]
  | comparison _ c t => [.element "comparison" (comparisonAttributes c) t.toXml]
  | negation _ t => [.element "not" [] t.toXml]
  | optional _ t => [.element "optional" [] t.toXml]
  | group _ k ts => [.element (groupName k) [] (allToXml ts)]

/-- The elements of the terms of a list. -/
def allToXml : List Term → List Xml
  | [] => []
  | t :: ts => t.toXml ++ allToXml ts

end

/-- The term as a document. -/
def markup (t : Term) : String := Xml.renderAll t.toXml

/-! ## Reading -/

/-- The literal with given attributes and text. -/
def literalOf (attributes : List (String × String)) (text : String) : Term :=
  match Literal.ofLexical? text ((Xml.attribute? attributes "datatype").map Uri.mk) with
  | some (.dateTime m) =>
    let precision := (Xml.attribute? attributes "granularity").bind Period.ofName?
    ofLiteral (.dateTime ⟨m.instant, precision.getD m.precision⟩)
  | some l => ofLiteral l
  | none => nothing

/-- The comparison with given attributes, if they can be read. -/
def comparisonOf? (attributes : List (String × String)) : Option Comparison :=
  let get := Xml.attribute? attributes
  let aggregate := Aggregate.ofName ((get "aggregate").getD "")
  let weight : Option Int := match get "sortWeight" with
    | some w => Text.readInt? Text.int32Limit (Text.trim w.toList)
    | none => some 0
  match aggregate, weight with
  | .ok aggregate, some sortWeight =>
    some {
      property := (get "property").map Uri.mk
      comparator := .ofSymbol ((get "comparator").getD ":")
      inverted := Xml.flag attributes "inverted"
      variableName := get "varname"
      aggregate
      sortWeight
      sortOrder := if (get "sortWeight").isSome then .ofName ((get "sortOrder").getD "asc")
        else .ascending }
  | _, _ => none

/-- The types that the content of a type restriction adds. -/
def alsoTypes (content : List Xml) : List Uri :=
  content.filterMap fun
    | .element "also" attributes _ => (Xml.attribute? attributes "uri").map Uri.mk
    | _ => none

/-- A term around the first of the given ones, nothing if there is none or it says nothing. -/
def aroundFirst (wrap : Term → Term) (ts : List Term) : Term :=
  match ts with
  | t :: _ => if t.isValid then wrap t else nothing
  | [] => nothing

mutual

/-- The term that an element stands for. -/
def ofXml : Xml → Term
  | .text _ => nothing
  | .element name attributes content =>
    let get := Xml.attribute? attributes
    match name with
    | "literal" => literalOf attributes (Xml.textOf content)
    | "resource" =>
      match get "uri" with
      | some u => resource .empty ⟨u⟩
      | none => nothing
    | "type" => ofTypes (((get "uri").map Uri.mk).toList ++ alsoTypes content)
    | "and" => allOf ((allOfXml content).filter isValid)
    | "or" => oneOf ((allOfXml content).filter isValid)
    | "not" => aroundFirst (negation .empty) (allOfXml content)
    | "optional" => aroundFirst (optional .empty) (allOfXml content)
    | "comparison" =>
      match comparisonOf? attributes with
      | some c => comparison .empty c ((allOfXml content).headD nothing)
      | none => nothing
    | _ => nothing

/-- The terms that the elements of a content stand for. -/
def allOfXml : List Xml → List Term
  | [] => []
  | x :: xs => if x.isElement then ofXml x :: allOfXml xs else allOfXml xs

end

/-- The term that a document stands for, nothing if it cannot be read. -/
def ofMarkup (document : String) : Term :=
  match Xml.read? document.toList with
  | some x => ofXml x
  | none => nothing

end DesktopSearch.Term
