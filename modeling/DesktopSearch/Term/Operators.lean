import DesktopSearch.Term.Basic

/-!
# Operators

Terms are joined by `&&&` and `|||` and negated by `~~~`. A term that says nothing is neutral for the
first two and stays as it is under the third; groups of the same kind are merged. The span of the
result covers both sides.
-/

namespace DesktopSearch.Term

/-- What a term contributes as one side of a group of kind `k`. -/
def side (k : Connective) : Term → List Term
  | group s l ms => if l = k then ms else [group s l ms]
  | t => [t]

/-- Joins two terms. -/
def join (k : Connective) (a b : Term) : Term :=
  if !a.isValid then b
  else if !b.isValid then a
  else group (a.span.union b.span) k (a.side k ++ b.side k)

/-- The negation of a term, unless it says nothing. -/
def negate (t : Term) : Term :=
  if t.isValid then negation t.span t else nothing

instance : AndOp Term := ⟨join .and⟩

instance : OrOp Term := ⟨join .or⟩

instance : Complement Term := ⟨negate⟩

end DesktopSearch.Term
