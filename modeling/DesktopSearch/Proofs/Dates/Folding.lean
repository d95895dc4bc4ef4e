import DesktopSearch.Dates.Folding
import DesktopSearch.Proofs.Dates.Spec

/-!
# Where dates are folded

Every run of fields that a list has is folded to a specification, and `specsAfter` lists them. The dates of
the list are folded exactly if all of them describe moments (`foldDates?_isSome_iff`).
-/

namespace DesktopSearch

/-- The specifications that dates are folded to in a list that follows a run, if one is open. -/
def specsAfter (settings : Settings) : Option DateRun → List Term → List DateSpec
  | none, [] => []
  | some r, [] => [r.spec]
  | none, t :: ts =>
    match t.field? with
    | some (p, f) => specsAfter settings (some (.start p f t.span)) ts
    | none => specsAfter settings none ts
  | some r, t :: ts =>
    match t.field? with
    | some (p, f) => specsAfter settings (some (r.add p f t.span)) ts
    | none =>
      if isFiller settings t then specsAfter settings (some (r.fill t)) ts
      else r.spec :: specsAfter settings none ts

/-- A run is folded exactly if its specification describes a moment. -/
theorem DateRun.terms?_isSome_iff (r : DateRun) (now : Instant) :
    (r.terms? now).isSome = true ↔ r.spec.TimeShiftFits := by
  rw [terms?, Option.isSome_map, DateSpec.moment?_isSome_iff]

theorem foldDatesAfter?_isSome_iff (settings : Settings) (now : Instant) (run : Option DateRun)
    (ts : List Term) :
    (foldDatesAfter? settings now run ts).isSome = true ↔
      ∀ s ∈ specsAfter settings run ts, s.TimeShiftFits := by
  induction ts generalizing run with
  | nil =>
    cases run with
    | none => simp [foldDatesAfter?, specsAfter]
    | some r => simp [foldDatesAfter?, specsAfter, r.terms?_isSome_iff]
  | cons t ts ih =>
    cases run with
    | none =>
      simp only [foldDatesAfter?, specsAfter]
      cases t.field? with
      | some field => exact ih _
      | none => rw [Option.isSome_map, ih]
    | some r =>
      simp only [foldDatesAfter?, specsAfter]
      cases t.field? with
      | some field => exact ih _
      | none =>
        dsimp only
        split
        · exact ih _
        · rw [List.forall_mem_cons, ← ih, ← r.terms?_isSome_iff now]
          cases r.terms? now <;> simp

/-- Dates are folded exactly if the sums of all their shifts have 64 bits. -/
theorem foldDates?_isSome_iff (settings : Settings) (now : Instant) (ts : List Term) :
    (foldDates? settings now ts).isSome = true ↔ ∀ s ∈ specsAfter settings none ts, s.TimeShiftFits :=
  foldDatesAfter?_isSome_iff settings now none ts

end DesktopSearch
