import DesktopSearch.Term.Basic

/-!
# Normal form

`optimize` brings a term into normal form: groups hold no member twice, none that says nothing and
none that is a group of the same kind, a group of one is its member, and neither two negations nor
two optional parts follow each other.
-/

namespace DesktopSearch.Term

/-- What a member puts into a group of kind `k`: nothing if it says nothing, its own members if it is
such a group itself. -/
def spread (k : Connective) : Term → List Term
  | invalid _ => []
  | group s l ms => if l = k then ms else [group s l ms]
  | t => [t]

/-- Adds a term at the end of a list unless an equal one is there. -/
def pushNew (seen : List Term) (t : Term) : List Term :=
  if seen.any (·.same t) then seen else seen ++ [t]

/-- The terms of a list, each at its first occurrence only. -/
def distinct (ts : List Term) : List Term :=
  ts.foldl pushNew []

/-- The group of the terms, or what is left of it when there are fewer than two. -/
def regroup (s : Span) (k : Connective) : List Term → Term
  | [] => nothing
  | [t] => t
  | ts => group s k ts

/-- The negation of a term in normal form. -/
def negateNormal (s : Span) : Term → Term
  | invalid _ => nothing
  | negation _ inner => inner
  | t => negation s t

/-- The optional part with a term in normal form. -/
def optionalNormal (s : Span) : Term → Term
  | invalid _ => nothing
  | optional t inner => optional t inner
  | t => optional s t

mutual

/-- The normal form of a term. -/
def optimize : Term → Term
  | group s k ms => regroup s k (distinct ((optimizeAll ms).flatMap (spread k)))
  | negation s t => negateNormal s t.optimize
  | optional s t => optionalNormal s t.optimize
  | comparison s c t => comparison s c t.optimize
  | invalid s => invalid s
  | literal s l => literal s l
  | resource s u => resource s u
  | types s us => types s us

/-- The normal forms of the terms of a list. -/
def optimizeAll : List Term → List Term
  | [] => []
  | t :: ts => t.optimize :: optimizeAll ts

end

theorem optimizeAll_eq_map (ts : List Term) : optimizeAll ts = ts.map optimize := by
  induction ts with
  | nil => rfl
  | cons t ts ih => simp [optimizeAll, ih]

end DesktopSearch.Term
