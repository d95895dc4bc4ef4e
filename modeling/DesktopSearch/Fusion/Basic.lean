import DesktopSearch.Fusion.Item
import DesktopSearch.Fusion.Tuning
import DesktopSearch.Term.Operators

/-!
# Fusion

`fuse` makes one term of a list of terms. The items of a level are joined from the left: an item is joined
by "and" unless an "or" stands before it, negated if a negation does, and tuned to the context that the
items before it in the same level have left. A level between parentheses is one item. Items that say
nothing are left out with their operators.
-/

namespace DesktopSearch

/-- Joins a term to what a level has so far, as one more member if that is a group of the same kind. -/
def Term.append (fused : Term) (k : Connective) (t : Term) : Term :=
  if !t.isValid then fused
  else if !fused.isValid then t
  else
    let span := fused.span.union t.span
    match fused with
    | .group s l ts => if l = k then .group span k (ts ++ [t]) else .group span k [.group s l ts, t]
    | _ => .group span k [fused, t]

/-- What has been read of a level. -/
structure LevelState where
  context : ResourceContext := .general
  /-- What the items so far come to. -/
  fused : Term := .nothing
  /-- How the next item is joined. -/
  connective : Connective := .and
  /-- The span of the negations in front of the next item, if there are any. -/
  negation : Option Span := none

namespace LevelState

/-- Negates the next item. -/
def negate (s : LevelState) (span : Span) : LevelState :=
  { s with negation := some ((s.negation.getD .empty).union span) }

/-- Joins an item. -/
def add (s : LevelState) (t : Term) : LevelState :=
  let t := match s.negation with
    | some span => (~~~ t).withSpan (t.span.union span)
    | none => t
  { s with fused := s.fused.append s.connective t, connective := .and, negation := none }

end LevelState

mutual

/-- Reads one item of a level. -/
def fuseItem (settings : Settings) (flags : ParserFlags) (s : LevelState) : Item → LevelState
  | .or => { s with connective := .or }
  | .and => { s with connective := .and }
  | .not span => s.negate span
  | .term t => { s with context := s.context.after t }.add (tune settings flags s.context t)
  | .level items => s.add (fuseItems settings flags {} items).fused

/-- Reads the items of a level. -/
def fuseItems (settings : Settings) (flags : ParserFlags) (s : LevelState) :
    List Item → LevelState
  | [] => s
  | i :: is => fuseItems settings flags (fuseItem settings flags s i) is

end

/-- Makes one term of a list of terms from a place on, and tells how far the list was read. -/
def fuse (settings : Settings) (flags : ParserFlags) (ts : List Term) (start : Nat) : Term × Nat :=
  let (items, length) := Item.ofTerms settings (ts.drop start)
  ((fuseItems settings flags {} items).fused, start + length)

end DesktopSearch
