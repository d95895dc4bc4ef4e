import DesktopSearch.Text.Escape

/-!
# Globs

Texts in which a star stands for any run of characters and a question mark for one character, and the
regular expressions that match the same texts.
-/

namespace DesktopSearch.Sparql

/-- Whether a character of a glob stands for other characters. -/
def isWildcard (c : Char) : Bool := c == '*' || c == '?'

/-- One character of a glob as a regular expression. -/
def globChar (c : Char) : List Char :=
  if c = '*' then ['.', '*'] else if c = '?' then ['.'] else Text.patternChar c

/-- A glob as a regular expression, without anchors. -/
def globPattern (cs : List Char) : List Char :=
  cs.flatMap globChar

/-- The number of characters that full-text search needs before a wildcard. -/
def wildcardDistance : Nat := 4

/-- Whether the first wildcard stands too close to the start for full-text search. -/
def hasEarlyWildcard (cs : List Char) : Bool :=
  cs.any isWildcard && decide ((cs.takeWhile (!isWildcard ·)).length < wildcardDistance)

end DesktopSearch.Sparql
