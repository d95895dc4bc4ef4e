import DesktopSearch.Pattern.Basic

/-!
# Matching

`Pattern.matchAt` lays a pattern over the start of a list of terms. A run that another part follows ends
before the first term that this part accepts; a run at the end of the pattern takes all the terms that
are left, and one at least, unless a run before it has taken some. If the terms end inside the pattern,
the match stops there, which is worth knowing when a keyword has been met: whoever types may be about to
type the rest.
-/

namespace DesktopSearch

/-- What the parts of a pattern have taken so far. -/
structure Taken where
  /-- The captured terms with their slots. -/
  slots : List (Nat × Term) := []
  /-- The terms of the runs. -/
  run : List Term := []
  /-- The number of terms that were taken. -/
  length : Nat := 0
  /-- The number of parts that were done with. -/
  parts : Nat := 0
  /-- Whether one of these parts was a keyword. -/
  sawKeyword : Bool := false

namespace Taken

/-- A term for a slot. -/
def capture (x : Taken) (slot : Nat) (t : Term) : Taken :=
  { x with slots := x.slots ++ [(slot, t)], length := x.length + 1, parts := x.parts + 1 }

/-- A term for a keyword. -/
def keyword (x : Taken) : Taken :=
  { x with length := x.length + 1, parts := x.parts + 1, sawKeyword := true }

/-- Terms for a run. -/
def extend (x : Taken) (ts : List Term) : Taken :=
  { x with run := x.run ++ ts, length := x.length + ts.length }

/-- The run is over. -/
def next (x : Taken) : Taken := { x with parts := x.parts + 1 }

/-- The captured terms in the order of their slots, those of the runs behind them. A slot that is named
twice holds the later term, one that is not named holds nothing. -/
def captures (x : Taken) (slotCount : Nat) : List Term :=
  (List.range slotCount).map (fun i =>
    ((x.slots.reverse.find? (·.1 == i)).map Prod.snd).getD .nothing) ++ x.run

end Taken

/-- How a match ends. -/
inductive Outcome where
  | matched (taken : Taken)
  /-- The terms ended inside the pattern. -/
  | stopped (taken : Taken)
  | failed

namespace Outcome

/-- The outcome if the terms end before the pattern does. -/
def atEnd (x : Taken) : Outcome :=
  if x.sawKeyword then stopped x else failed

end Outcome

/-- Lays parts over the start of a list of terms, after what has been taken already. -/
def Part.matchAll (x : Taken) : List Part → List Term → Outcome
  | [], _ => .matched x
  | [.run], [] => if x.run.isEmpty then .atEnd x else .matched x
  | _ :: _, [] => .atEnd x
  | .capture slot :: parts, t :: ts => matchAll (x.capture slot t) parts ts
  | .keyword k :: parts, t :: ts =>
    if (Part.keyword k).accepts t then matchAll x.keyword parts ts else .failed
  | [.run], t :: ts => .matched (x.extend (t :: ts))
  | .run :: part :: parts, t :: ts =>
    let taken := (t :: ts).takeWhile (!part.accepts ·)
    match (t :: ts).dropWhile (!part.accepts ·) with
    | [] => .atEnd (x.extend taken)
    | rest => matchAll (x.extend taken).next (part :: parts) rest

/-- Lays a pattern over the start of a list of terms. -/
def Pattern.matchAt (p : Pattern) (ts : List Term) : Outcome :=
  Part.matchAll {} p.parts ts

/-- The span that covers all terms of a list. -/
def Term.spanOf (ts : List Term) : Span :=
  ts.foldl (fun s t => s.union t.span) .empty

end DesktopSearch
