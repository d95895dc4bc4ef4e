import DesktopSearch.Proofs.Pattern.Rewriting
import DesktopSearch.Proofs.Text.Checked

/-!
# Checked rewriting

`Checked.rewrite` rewrites a list of terms with a reading that may be given up, and is given up with it. If
such a reading follows one that answers always, wherever the captured terms have a property that this one
keeps, then rewriting is not given up and comes to the same (`Checked.rewrite_eq`).
-/

namespace DesktopSearch.Checked

/-- A way of reading captured terms that may be given up. -/
abbrev Reader := List Term → Option (List Term)

/-- The list in which the window at the start is rewritten, if there is one. -/
def rewriteHere (p : Pattern) (reader : Reader) (ts : List Term) : Option (Option (List Term)) :=
  match p.matchAt ts with
  | .matched x => do
    let new ← reader (x.captures p.slotCount)
    return if new.isEmpty then none else some (placed (ts.take x.length) new ++ ts.drop x.length)
  | _ => some none

/-- The list with its first window rewritten, if there is one, and the matches that were looked at. -/
def step (p : Pattern) (reader : Reader) : List Term → Option (Option (List Term) × List Trial)
  | [] => some (none, [])
  | t :: ts => do
    let here := (trialHere? p (t :: ts)).toList
    match ← rewriteHere p reader (t :: ts) with
    | some new => return (some new, here)
    | none =>
      let rest ← step p reader ts
      return (rest.1.map (t :: ·), here ++ rest.2)

/-- Rewrites with at most `limit` steps. -/
def rewriteWithin (p : Pattern) (reader : Reader) : (limit : Nat) → List Term → Option Rewritten
  | 0, ts => some ⟨ts, 0, []⟩
  | limit + 1, ts => do
    match ← step p reader ts with
    | (none, trials) => return ⟨ts, 0, trials⟩
    | (some new, trials) =>
      let rest ← rewriteWithin p reader limit new
      return ⟨rest.terms, rest.steps + 1, trials ++ rest.trials⟩

/-- Rewrites every window of a list that a pattern matches. -/
def rewrite (p : Pattern) (reader : Reader) (ts : List Term) : Option Rewritten :=
  rewriteWithin p reader maxRewrites ts

/-! ## Readings that are not given up -/

/-- The checked reading comes to what the other one answers, whenever the captured terms have a property. -/
def Follows (P : Term → Prop) (checked : Reader) (reader : DesktopSearch.Reader) : Prop :=
  ∀ ts, (∀ t ∈ ts, P t ∨ t = .nothing) → checked ts = some (reader ts)

variable {P : Term → Prop} {checked : Reader} {reader : DesktopSearch.Reader} {p : Pattern}
  {ts : List Term}

theorem rewriteHere_eq (h : Follows P checked reader) (hts : ∀ t ∈ ts, P t) :
    rewriteHere p checked ts = some (rewriteHere? p reader ts) := by
  rw [rewriteHere, rewriteHere?]
  cases hmatch : p.matchAt ts with
  | matched x =>
    have hx := Part.holds_of_matchAll Taken.Holds.empty hts hmatch
    simp only [h _ (hx.captures p.slotCount), Option.bind_eq_bind, Option.bind_some, Option.pure_def]
  | stopped x => rfl
  | failed => rfl

theorem step_eq (h : Follows P checked reader) (hts : ∀ t ∈ ts, P t) :
    step p checked ts = some (step? p reader ts, trials p reader ts) := by
  induction ts with
  | nil => rfl
  | cons t ts ih =>
    have hrest := ih (List.forall_mem_cons.1 hts).2
    rw [step, rewriteHere_eq h hts, step?, trials]
    cases rewriteHere? p reader (t :: ts) with
    | some new => rfl
    | none =>
      rw [hrest]
      rfl

theorem rewriteWithin_eq (h : Follows P checked reader) (hkeeps : KeepsWindows P reader) (limit : Nat)
    (hts : ∀ t ∈ ts, P t) :
    rewriteWithin p checked limit ts = some (DesktopSearch.rewriteWithin p reader limit ts) := by
  induction limit generalizing ts with
  | zero => rfl
  | succ limit ih =>
    rw [rewriteWithin, step_eq h hts, DesktopSearch.rewriteWithin]
    cases hstep : step? p reader ts with
    | none => rfl
    | some new =>
      have hrest := ih (step?_keeps hkeeps hts hstep)
      simp only [Option.bind_eq_bind, Option.bind_some, hrest]
      rfl

/-- Rewriting is not given up if its reading is not, and it comes to the same. -/
theorem rewrite_eq (h : Follows P checked reader) (hspan : IgnoresSpans P) (hkeeps : Keeps P reader)
    (hts : ∀ t ∈ ts, P t) : rewrite p checked ts = some (DesktopSearch.rewrite p reader ts) :=
  rewriteWithin_eq h (hkeeps.keepsWindows hspan) maxRewrites hts

end DesktopSearch.Checked
