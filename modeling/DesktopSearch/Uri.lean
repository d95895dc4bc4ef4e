/-!
# Resource identifiers

An identifier is kept as written. Its scheme, host and path are those of `scheme://host/path`; two
schemes never leave the program: `date` marks a calendar field, and `property` a property whose real
identifier depends on the kind of resource that is looked for.
-/

namespace DesktopSearch

/-- The identifier of a resource, as written. -/
structure Uri where
  text : String
  deriving DecidableEq

namespace Uri

/-- The text before and after the first mark between scheme and host. -/
def splitScheme? : List Char → Option (List Char × List Char)
  | ':' :: '/' :: '/' :: rest => some ([], rest)
  | c :: rest => (splitScheme? rest).map fun (scheme, after) => (c :: scheme, after)
  | [] => none

/-- What stands before the first mark between scheme and host. -/
def scheme? (u : Uri) : Option String :=
  (splitScheme? u.text.toList).map fun p => String.ofList p.1

/-- What stands between the scheme and the next slash. -/
def host? (u : Uri) : Option String :=
  (splitScheme? u.text.toList).map fun p => String.ofList (p.2.takeWhile (· != '/'))

/-- Everything from the slash after the host on, empty if there is none. -/
def path (u : Uri) : String :=
  match splitScheme? u.text.toList with
  | some (_, rest) => String.ofList (rest.dropWhile (· != '/'))
  | none => ""

/-- The identifier between angle brackets. -/
def n3 (u : Uri) : String :=
  "<" ++ u.text ++ ">"

/-- The scheme of calendar fields. -/
def dateScheme : String := "date"

/-- The scheme of properties that are still to be resolved. -/
def propertyScheme : String := "property"

/-- The property that is called `name` whatever the kind of resource. -/
def pseudo (name : String) : Uri :=
  ⟨propertyScheme ++ "://" ++ name ++ "/"⟩

/-- The name of a property that is still to be resolved. -/
def pseudoName? (u : Uri) : Option String :=
  if u.scheme? = some propertyScheme then u.host? else none

end Uri

end DesktopSearch
