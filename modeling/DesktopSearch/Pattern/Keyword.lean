import DesktopSearch.Text.Case

/-!
# Keywords

A keyword is a regular expression that the whole text of a literal has to match, apart from case. All that a
pattern asks of it is whether a text matches, so a `Keyword` is a condition on texts, and what an expression
means is left to an `Engine`.

The phrasings of the program write their keywords with plain characters, bars between alternatives, and
groups in parentheses; a backslash takes the meaning away from the mark after it. Such a keyword stands for
finitely many words, and `Keyword.read?` is the engine for them. It collects the words while it reads: a level
of the reader, one for every open group, holds the words of the alternatives before the current one and the
words the current one has so far.

The whole expression stands inside a group of its own, with the start of the text before it and the
end of the text after it. It may close that group and open it again, and a bar outside every group
parts the two ends: the words before the first such bar need only stand at the start of a text,
those after the last one at its end, and those in between anywhere. Repetitions, classes of
characters and everything else that stands for more than its own characters are left to other engines.
-/

namespace DesktopSearch

/-- A condition on texts. -/
structure Keyword where
  accepts : String → Bool

namespace Keyword

/-- What regular expressions mean: the texts that an expression has a match in, or nothing if it cannot be
read. -/
abbrev Engine := List Char → Option Keyword

/-- The expression that matches what `cs` matches as a whole, whatever its case: `(?i)^(?:cs)$`. -/
def anchored (cs : List Char) : List Char :=
  '(' :: '?' :: 'i' :: ')' :: '^' :: '(' :: '?' :: ':' :: (cs ++ [')', '$'])

/-! ## Words -/

/-- Where a word has to stand in a text. -/
inductive Place where
  | whole | start | inside | finish
  deriving DecidableEq

/-- Whether a word stands somewhere in a text. -/
def occurs (word : List Char) : List Char → Bool
  | [] => word.isEmpty
  | c :: cs => word.isPrefixOf (c :: cs) || occurs word cs

/-- Whether a word stands at its place in a text. -/
def Place.holds : Place → List Char → List Char → Bool
  | whole, word, cs => word == cs
  | start, word, cs => word.isPrefixOf cs
  | inside, word, cs => occurs word cs
  | finish, word, cs => word.isSuffixOf cs

/-- The keyword that stands for some words, each at its place and without regard to case. -/
def ofWords (words : List (Place × List Char)) : Keyword :=
  let words := words.map fun (place, word) => (place, word.map Text.fold)
  { accepts := fun text =>
      let folded := text.toList.map Text.fold
      words.any fun (place, word) => place.holds word folded }

/-- The words of an open group: those of the finished alternatives, and those of the current one. -/
structure Level where
  finished : List (List Char)
  current : List (List Char)

namespace Level

/-- A group in which nothing has been read. -/
def opened : Level := ⟨[], [[]]⟩

/-- All words of the group. -/
def words (l : Level) : List (List Char) := l.finished ++ l.current

/-- Reads any of `ws` after the words of the current alternative. -/
def follow (l : Level) (ws : List (List Char)) : Level :=
  { l with current := l.current.flatMap fun u => ws.map (u ++ ·) }

/-- Reads one character. -/
def addChar (l : Level) (c : Char) : Level := l.follow [[c]]

/-- Starts another alternative. -/
def alternative (l : Level) : Level := ⟨l.words, [[]]⟩

end Level

/-- The marks that stand for more than themselves, apart from bars, parentheses and backslashes. -/
def isOperator (c : Char) : Bool :=
  ['.', '?', '*', '+', '{', '[', '^', '$'].contains c

/-- Whether a character stands for itself after a backslash. -/
def isEscapable (c : Char) : Bool :=
  decide (c.toNat < 0x80) && !c.isAlphanum && c != '<' && c != '>'

/-- Reads an expression up to the end of the text that it ends with, given whether no bar outside every group
has been read, what stands outside every group since the last such bar, and the open groups, the innermost
first. -/
def readLevels? (atStart : Bool) (outside : Level) :
    List Level → List Char → Option (List (Place × List Char))
  | _, [] => none
  | levels, '\\' :: cs =>
    match levels, cs with
    | inner :: outer, c :: cs =>
      if isEscapable c then readLevels? atStart outside (inner.addChar c :: outer) cs else none
    | [], c :: cs => if isEscapable c then readLevels? atStart (outside.addChar c) [] cs else none
    | _, [] => none
  | levels, c :: cs =>
    if c = '(' then
      if cs.head? = some '?' then none else readLevels? atStart outside (.opened :: levels) cs
    else
      match levels with
      | [] =>
        if c = '|' then
          let place := if atStart then .start else .inside
          (readLevels? false .opened [] cs).map (outside.words.map (place, ·) ++ ·)
        else if c = '$' ∧ cs.isEmpty then
          let place := if atStart then .whole else .finish
          some (outside.words.map (place, ·))
        else if c = ')' ∨ isOperator c then none
        else readLevels? atStart (outside.addChar c) [] cs
      | inner :: outer =>
        if c = ')' then
          match outer with
          | [] => readLevels? atStart (outside.follow inner.words) [] cs
          | next :: outer => readLevels? atStart outside (next.follow inner.words :: outer) cs
        else if c = '|' then readLevels? atStart outside (inner.alternative :: outer) cs
        else if isOperator c then none
        else readLevels? atStart outside (inner.addChar c :: outer) cs

/-- The engine for expressions that are anchored and stand for finitely many words. -/
def read? : Engine
  | '(' :: '?' :: 'i' :: ')' :: '^' :: '(' :: '?' :: ':' :: cs =>
    (readLevels? true .opened [.opened] cs).map ofWords
  | _ => none

end Keyword

end DesktopSearch
