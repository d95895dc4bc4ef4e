/-!
# Spans

The stretch of the input that a term was read from, counted in characters. Spans serve highlighting
and completion only.
-/

namespace DesktopSearch

/-- A start and a length. -/
structure Span where
  start : Nat := 0
  length : Nat := 0
  deriving DecidableEq, Repr

namespace Span

/-- The span of nothing at the start. -/
def empty : Span := ⟨0, 0⟩

/-- The first place after the span. -/
def stop (s : Span) : Nat := s.start + s.length

/-- Whether the span covers nothing. -/
def isEmpty (s : Span) : Bool := s.length == 0

/-- The smallest span that covers both; one that covers nothing is ignored. -/
def union (a b : Span) : Span :=
  if a.isEmpty then b
  else if b.isEmpty then a
  else
    let start := min a.start b.start
    ⟨start, max a.stop b.stop - start⟩

end Span

end DesktopSearch
