/-!
# Escapes

Two ways of writing a text inside another one: between the double quotes of a query (`quote`), and as
a regular expression that matches just this text (`literalPattern`).
-/

namespace DesktopSearch.Text

/-- One character between double quotes. -/
def quoteChar (c : Char) : List Char :=
  if c = '\\' then ['\\', '\\']
  else if c = '"' then ['\\', '"']
  else if c = '\n' then ['\\', 'n']
  else if c = '\r' then ['\\', 'r']
  else if c = '\t' then ['\\', 't']
  else [c]

/-- A text between double quotes, the quotes themselves aside. -/
def quote (cs : List Char) : List Char :=
  cs.flatMap quoteChar

/-- The characters that a regular expression reads as operators. -/
def isPatternOperator (c : Char) : Bool :=
  ['\\', '|', '.', '?', '*', '+', '(', ')', '{', '}', '[', ']', '^', '$'].contains c

/-- One character as a regular expression. -/
def patternChar (c : Char) : List Char :=
  if isPatternOperator c then ['\\', c] else [c]

/-- The regular expression that matches just this text. -/
def literalPattern (cs : List Char) : List Char :=
  cs.flatMap patternChar

end DesktopSearch.Text
