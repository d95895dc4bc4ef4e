import DesktopSearch.Calendar.Moment
import DesktopSearch.Number.Decimal
import DesktopSearch.Text.Escape
import DesktopSearch.Vocabulary

/-!
# Literal values

The scalar values that terms hold, with their datatypes, their text and the way back from text.
Two literals are equal when they have the same kind and the same value; doubles are told apart by
their bits, moments by their precision too.
-/

namespace DesktopSearch

open Vocabulary

/-- The kinds of scalar values. -/
inductive LiteralType where
  | string | integer | double | boolean | dateTime
  deriving DecidableEq, Repr

namespace LiteralType

/-- The name of a kind. -/
def name : LiteralType → String
  | string => "string"
  | integer => "integer"
  | double => "double"
  | boolean => "boolean"
  | dateTime => "datetime"

/-- The datatype that values of a kind are written with. -/
def datatype : LiteralType → Uri
  | string => Xsd.string
  | integer => Xsd.long
  | double => Xsd.double
  | boolean => Xsd.boolean
  | dateTime => Xsd.dateTime

/-- The kind that a datatype stands for. -/
def ofDatatype? (u : Uri) : Option LiteralType :=
  if u = Xsd.string then some string
  else if u = Xsd.long ∨ u = Xsd.int ∨ u = Xsd.integer then some integer
  else if u = Xsd.double ∨ u = Xsd.float ∨ u = Xsd.decimal then some double
  else if u = Xsd.boolean then some boolean
  else if u = Xsd.dateTime then some dateTime
  else none

end LiteralType

/-- A scalar value. -/
inductive Literal where
  | string (value : String)
  | integer (value : Int)
  | double (value : Double)
  | boolean (value : Bool)
  | dateTime (value : Moment)
  deriving DecidableEq

namespace Literal

/-- The kind of a literal. -/
def type : Literal → LiteralType
  | string _ => .string
  | integer _ => .integer
  | double _ => .double
  | boolean _ => .boolean
  | dateTime _ => .dateTime

/-- The datatype of a literal. -/
def datatype (l : Literal) : Uri := l.type.datatype

/-- The value of a string literal. -/
def string? : Literal → Option String
  | string s => some s
  | _ => none

/-- The value of an integer literal. -/
def integer? : Literal → Option Int
  | integer n => some n
  | _ => none

/-- The value of a date literal. -/
def moment? : Literal → Option Moment
  | dateTime m => some m
  | _ => none

/-- Whether the literal is a string. -/
def isString (l : Literal) : Bool := l.type == .string

/-- Whether the literal is a number. -/
def isNumeric (l : Literal) : Bool := l.type == .integer || l.type == .double

/-- The value as text. -/
def text : Literal → String
  | string s => s
  | integer n => toString n
  | double d => d.text
  | boolean b => if b then "true" else "false"
  | dateTime m => m.text

/-- The value between double quotes, with its datatype unless it is a string. -/
def n3 (l : Literal) : String :=
  let quoted := "\"" ++ String.ofList (Text.quote l.text.toList) ++ "\""
  match l with
  | string _ => quoted
  | _ => quoted ++ "^^" ++ l.datatype.n3

/-- The value of a kind that a text spells; blanks around it count in strings only. -/
def read? (type : LiteralType) (text : String) : Option Literal :=
  let trimmed := Text.trim text.toList
  match type with
  | .string => some (string text)
  | .integer => (Text.readInt? Text.int64Limit trimmed).map integer
  | .double => (Double.read? trimmed).map double
  | .boolean =>
    match String.ofList trimmed with
    | "true" => some (boolean true)
    | "1" => some (boolean true)
    | "false" => some (boolean false)
    | "0" => some (boolean false)
    | _ => none
  | .dateTime => (Instant.read? text.toList).map fun t => dateTime (.exact t)

/-- The value of a text with a datatype; one that is not known makes it a string. -/
def ofLexical? (text : String) (datatype : Option Uri) : Option Literal :=
  read? ((datatype.bind LiteralType.ofDatatype?).getD .string) text

end Literal

end DesktopSearch
