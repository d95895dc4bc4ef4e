import DesktopSearch.Term.Basic

/-!
# Graph patterns

The part of a query between its outermost braces, as a tree: triples, filters, and groups of patterns
that are required, forbidden, optional or alternatives. `Pattern.text` writes it down; every pattern
ends with a point and a blank.
-/

namespace DesktopSearch.Sparql

/-! ## Variables and nodes -/

/-- The variables of a query: the result, those made up while compiling, and those with a name. -/
inductive Variable where
  | result
  | generated (n : Nat)
  | named (name : String)
  deriving DecidableEq

/-- A variable with its question mark. -/
def Variable.text : Variable → String
  | result => "?r"
  | generated n => "?v" ++ toString n
  | named name => "?" ++ name

/-- What can stand in a triple. -/
inductive Node where
  | var (v : Variable)
  | uri (u : Uri)
  | literal (l : Literal)
  deriving DecidableEq

/-- A node as text. -/
def Node.text : Node → String
  | var v => v.text
  | uri u => u.n3
  | literal l => l.n3

/-! ## Patterns -/

/-- A graph pattern. -/
inductive Pattern where
  /-- The subject has the object as a value of the predicate. -/
  | triple (subject predicate object : Node)
  /-- The subject belongs to a class. -/
  | instanceOf (subject : Variable) (type : Node)
  /-- The variable is this resource. -/
  | isResource (v : Variable) (uri : Uri)
  /-- The variable is one of these resources. -/
  | isOneOf (v : Variable) (uris : List Uri)
  /-- The variable compares to a literal. -/
  | compares (v : Variable) (comparator : Comparator) (value : Literal)
  /-- The text of the variable matches a regular expression. -/
  | matchesRegexp (v : Variable) (expression : String)
  /-- The variable holds a text, found with a score. -/
  | searches (v : Variable) (text : String) (score : Option Variable)
  /-- A group in braces. -/
  | block (body : List Pattern)
  /-- One of the blocks holds. -/
  | union (branches : List Pattern)
  /-- The subject has the object as a value of the predicate, or the object the subject as a value of
  its inverse. -/
  | eitherWay (subject predicate object : Node) (inverse : Uri)
  /-- The group holds for some values of its own variables. -/
  | holds (body : List Pattern)
  /-- The group holds for no values of its own variables. -/
  | fails (body : List Pattern)
  /-- The group binds its variables if it can. -/
  | optional (body : List Pattern)

/-- A text between the double quotes of a query. -/
def quoted (s : String) : String :=
  "\"" ++ String.ofList (Text.quote s.toList) ++ "\""

/-- A full-text phrase: the text between single quotes, those inside it escaped. -/
def phrase (s : String) : String :=
  "'" ++ String.ofList (s.toList.flatMap fun c => if c = '\'' then ['\\', '\''] else [c]) ++ "'"

namespace Pattern

mutual

/-- A pattern as text. -/
def text : Pattern → String
  | triple s p o => s.text ++ " " ++ p.text ++ " " ++ o.text ++ " . "
  | instanceOf s c => s.text ++ " a " ++ c.text ++ " . "
  | isResource v u => "FILTER(" ++ v.text ++ "=" ++ u.n3 ++ ") . "
  | isOneOf v us => "FILTER(" ++ v.text ++ " in (" ++ ", ".intercalate (us.map Uri.n3) ++ ")) . "
  | compares v c l => "FILTER(" ++ v.text ++ c.symbol ++ l.n3 ++ ") . "
  | matchesRegexp v e => "FILTER(REGEX(STR(" ++ v.text ++ "), " ++ quoted e ++ ", \"i\")) . "
  | searches v t none => v.text ++ " bif:contains " ++ quoted (phrase t) ++ " . "
  | searches v t (some score) =>
    v.text ++ " bif:contains " ++ quoted (phrase t) ++ " OPTION (score " ++ score.text ++ ") . "
  | block body => "\x7b " ++ textAll body ++ " \x7d"
  | union branches => " UNION ".intercalate (texts branches) ++ " . "
  | eitherWay s p o inverse =>
    "\x7b " ++ s.text ++ " " ++ p.text ++ " " ++ o.text ++ " . \x7d UNION \x7b " ++ o.text ++ " " ++
      inverse.n3 ++ " " ++ s.text ++ " . \x7d . "
  | holds body => "FILTER EXISTS \x7b " ++ textAll body ++ "\x7d . "
  | fails body => "FILTER NOT EXISTS \x7b " ++ textAll body ++ " \x7d . "
  | optional body => "OPTIONAL \x7b " ++ textAll body ++ " \x7d . "

/-- Patterns as text, one after the other. -/
def textAll : List Pattern → String
  | [] => ""
  | p :: ps => p.text ++ textAll ps

/-- The texts of patterns. -/
def texts : List Pattern → List String
  | [] => []
  | p :: ps => p.text :: texts ps

end

end Pattern

end DesktopSearch.Sparql
