import DesktopSearch.Literal
import DesktopSearch.Term.Comparison
import DesktopSearch.Term.Span

/-!
# Terms

A query term is a tree of literals, resources, type restrictions and comparisons under negations,
optional parts and groups. Every node carries the span of the input it was read from. Equality of
terms, `same`, ignores the spans.
-/

namespace DesktopSearch

/-- The ways to join the members of a group. -/
inductive Connective where
  | and | or
  deriving DecidableEq, Repr

/-- A query term. The first type of a type restriction is the primary one. -/
inductive Term where
  | invalid (span : Span)
  | literal (span : Span) (value : Literal)
  | resource (span : Span) (uri : Uri)
  | types (span : Span) (uris : List Uri)
  | comparison (span : Span) (head : Comparison) (value : Term)
  | negation (span : Span) (inner : Term)
  | optional (span : Span) (inner : Term)
  | group (span : Span) (connective : Connective) (members : List Term)

instance : Inhabited Term := ⟨.invalid .empty⟩

namespace Term

/-- The term that says nothing. -/
def nothing : Term := invalid .empty

/-- The span of a term. -/
def span : Term → Span
  | invalid s => s
  | literal s _ => s
  | resource s _ => s
  | types s _ => s
  | comparison s _ _ => s
  | negation s _ => s
  | optional s _ => s
  | group s _ _ => s

/-- The term with another span. -/
def withSpan (t : Term) (s : Span) : Term :=
  match t with
  | invalid _ => invalid s
  | literal _ l => literal s l
  | resource _ u => resource s u
  | types _ us => types s us
  | comparison _ c v => comparison s c v
  | negation _ i => negation s i
  | optional _ i => optional s i
  | group _ k ms => group s k ms

/-- Whether the term says anything. -/
def isValid : Term → Bool
  | invalid _ => false
  | _ => true

/-! ## Building -/

/-- A literal that was read nowhere. -/
def ofLiteral (l : Literal) : Term := literal .empty l

/-- A comparison that was read nowhere. -/
def compare (property : Option Uri) (value : Term) (comparator : Comparator) : Term :=
  comparison .empty { property, comparator } value

/-- A restriction to any of the types, nothing if there are none. -/
def ofTypes (uris : List Uri) : Term :=
  if uris.isEmpty then nothing else types .empty uris

/-- A group of terms all of which hold. -/
def allOf (ts : List Term) : Term := group .empty .and ts

/-- A group of terms one of which holds. -/
def oneOf (ts : List Term) : Term := group .empty .or ts

/-! ## Looking inside -/

/-- The value of a literal. -/
def literal? : Term → Option Literal
  | literal _ l => some l
  | _ => none

/-- The value of a string literal. -/
def string? (t : Term) : Option String := t.literal?.bind Literal.string?

/-- The value of an integer literal. -/
def integer? (t : Term) : Option Int := t.literal?.bind Literal.integer?

/-- The value of a date literal. -/
def moment? (t : Term) : Option Moment := t.literal?.bind Literal.moment?

/-- The identifier of a resource. -/
def resource? : Term → Option Uri
  | resource _ u => some u
  | _ => none

/-- The types of a type restriction. -/
def types? : Term → Option (List Uri)
  | types _ us => some us
  | _ => none

/-- The single term below a negation, an optional part or a comparison. -/
def inner? : Term → Option Term
  | comparison _ _ v => some v
  | negation _ i => some i
  | optional _ i => some i
  | _ => none

/-- The members of a group. -/
def members : Term → List Term
  | group _ _ ms => ms
  | _ => []

/-- Whether the term is a comparison. -/
def isComparison : Term → Bool
  | comparison .. => true
  | _ => false

/-- Whether the term is a negation. -/
def isNegation : Term → Bool
  | negation .. => true
  | _ => false

/-! ## Equality up to spans -/

mutual

/-- Whether two terms differ in their spans at most. -/
def same : Term → Term → Bool
  | invalid _, invalid _ => true
  | literal _ a, literal _ b => a == b
  | resource _ a, resource _ b => a == b
  | types _ a, types _ b => a == b
  | comparison _ c a, comparison _ d b => c == d && same a b
  | negation _ a, negation _ b => same a b
  | optional _ a, optional _ b => same a b
  | group _ k as, group _ l bs => k == l && sameMembers as bs
  | _, _ => false

/-- Whether two lists of terms differ in spans at most. -/
def sameMembers : List Term → List Term → Bool
  | [], [] => true
  | a :: as, b :: bs => same a b && sameMembers as bs
  | _, _ => false

end

end Term

end DesktopSearch
