import DesktopSearch.Pattern.Matching

/-!
# Rewriting

`rewrite` puts something else in the place of every window of a list of terms that a pattern matches. One
step, `step?`, takes the first window for which the reading answers; the next step looks from the start
again, so that it sees what the first one wrote. Steps are counted and end when no window is left, or
after `maxRewrites` of them.

`trials` lists the matches that a step looks at, up to and including the one it rewrites.
-/

namespace DesktopSearch

/-- A way of reading captured terms, which answers nothing if it does not understand them. -/
abbrev Reader := List Term → List Term

/-- A replacement for a window: a single term takes over the span of the window. -/
def placed (window new : List Term) : List Term :=
  match new with
  | [t] => [t.withSpan (Term.spanOf window)]
  | _ => new

/-- The list in which the window at the start is rewritten, if the pattern matches there and the reading
answers. -/
def rewriteHere? (p : Pattern) (reader : Reader) (ts : List Term) : Option (List Term) :=
  match p.matchAt ts with
  | .matched x =>
    let new := reader (x.captures p.slotCount)
    if new.isEmpty then none else some (placed (ts.take x.length) new ++ ts.drop x.length)
  | _ => none

/-- The list with its first window rewritten. -/
def step? (p : Pattern) (reader : Reader) : List Term → Option (List Term)
  | [] => none
  | t :: ts =>
    match rewriteHere? p reader (t :: ts) with
    | some new => some new
    | none => (step? p reader ts).map (t :: ·)

/-- A match that was looked at. -/
inductive Trial where
  /-- The pattern matched, with these captured terms. -/
  | matched (captures : List Term)
  /-- The terms ended after some of its parts; the span covers them. -/
  | stopped (parts : Nat) (span : Span)

/-- The match at the start of a list, if the pattern did not fail there. -/
def trialHere? (p : Pattern) (ts : List Term) : Option Trial :=
  match p.matchAt ts with
  | .matched x => some (.matched (x.captures p.slotCount))
  | .stopped x => some (.stopped x.parts (Term.spanOf (ts.take x.length)))
  | .failed => none

/-- The matches that a step looks at. -/
def trials (p : Pattern) (reader : Reader) : List Term → List Trial
  | [] => []
  | t :: ts =>
    let here := (trialHere? p (t :: ts)).toList
    if (rewriteHere? p reader (t :: ts)).isSome then here
    else here ++ trials p reader ts

/-- What rewriting comes to: the terms, the number of steps, and the matches that were looked at. -/
structure Rewritten where
  terms : List Term
  steps : Nat
  trials : List Trial

/-- Rewrites with at most `limit` steps. -/
def rewriteWithin (p : Pattern) (reader : Reader) : (limit : Nat) → List Term → Rewritten
  | 0, ts => ⟨ts, 0, []⟩
  | limit + 1, ts =>
    match step? p reader ts with
    | none => ⟨ts, 0, trials p reader ts⟩
    | some new =>
      let rest := rewriteWithin p reader limit new
      ⟨rest.terms, rest.steps + 1, trials p reader ts ++ rest.trials⟩

/-- The most steps that one pattern is given. -/
def maxRewrites : Nat := 4096

/-- Rewrites every window of a list that a pattern matches. -/
def rewrite (p : Pattern) (reader : Reader) (ts : List Term) : Rewritten :=
  rewriteWithin p reader maxRewrites ts

end DesktopSearch
