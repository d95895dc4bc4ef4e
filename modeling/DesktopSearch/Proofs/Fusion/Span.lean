import DesktopSearch.Fusion.Basic
import DesktopSearch.Proofs.Fusion.Level
import DesktopSearch.Proofs.Term.Span

/-!
# Spans and fusion

Fusion joins spans and takes them over, and looks at none of them: terms may be fused first and lose their
spans then, or the other way round (`fuse_bare`). Tuning a term, joining it to a level and reading the items
of a level all are like this, the last by recursion over the levels of the list.
-/

namespace DesktopSearch

open Term

variable {settings : Settings} {flags : ParserFlags}

/-! ## Tuning -/

/-- Contexts are told from the types and the properties of terms. -/
theorem ResourceContext.after_bare (c : ResourceContext) (t : Term) : c.after t.bare = c.after t := by
  cases t with
  | types s us => cases us <;> rfl
  | _ => rfl

/-- Tuning looks at spans only to keep them. -/
theorem tune_bare (c : ResourceContext) (t : Term) :
    tune settings flags c t.bare = (tune settings flags c t).bare := by
  cases t with
  | literal s l =>
    cases l with
    | string word =>
      rw [bare, tune, tune]
      split <;> rfl
    | _ => rfl
  | comparison s head value =>
    rw [bare, tune, tune, tuneComparison, tuneComparison, moment?_bare]
    split <;> rfl
  | _ => rfl

/-! ## Joining -/

/-- Terms are joined by their shape, and only the span of the result is put together from theirs. -/
theorem Term.bare_append (k : Connective) (t u : Term) : (t.append k u).bare = t.bare.append k u.bare := by
  rw [Term.append, Term.append, isValid_bare, isValid_bare, span_bare, span_bare]
  split
  · rfl
  split
  · rfl
  cases t with
  | group s l ts =>
    dsimp only [bare]
    split
    · simp [bare, bareAll_eq_map, Span.union, Span.isEmpty, Span.empty]
    · rfl
  | _ => rfl

theorem Term.bare_negate (t : Term) : t.negate.bare = t.bare.negate := by
  rw [Term.negate, Term.negate, isValid_bare, span_bare]
  split <;> rfl

namespace LevelState

/-- What has been read of a level, without its spans. -/
def bare (s : LevelState) : LevelState :=
  { s with fused := s.fused.bare, negation := s.negation.map fun _ => .empty }

theorem bare_negate (s : LevelState) (span : Span) : (s.negate span).bare = s.bare.negate .empty := by
  cases h : s.negation <;> simp [negate, bare, h, Span.union, Span.empty, Span.isEmpty]

theorem bare_add (s : LevelState) (t : Term) : (s.add t).bare = s.bare.add t.bare := by
  cases h : s.negation with
  | none => simp [add, bare, h, bare_append]
  | some span =>
    have hnegate : (~~~ t).bare = ~~~ t.bare := Term.bare_negate t
    have hspan : (~~~ t.bare).withSpan (Span.empty.union .empty) = ~~~ t.bare :=
      hnegate ▸ withSpan_bare _
    simp only [add, bare, h, bare_append, bare_withSpan, hnegate, Option.map_some, span_bare, hspan,
      Option.map_none]

end LevelState

/-! ## Levels -/

/-- Operators and parentheses are words, wherever they stand. -/
theorem Role.of_bare (t : Term) : Role.of settings t.bare = Role.of settings t := by
  rw [Role.of, Role.of, string?_bare]

theorem behind_map_bare (depth : Nat) (ts : List Term) :
    behind settings depth (ts.map Term.bare) = (behind settings depth ts).map Term.bare := by
  induction ts generalizing depth with
  | nil => simp [behind]
  | cons t ts ih =>
    simp only [List.map_cons, behind, Role.of_bare]
    split
    · exact ih _
    · cases depth with
      | zero => rfl
      | succ depth => exact ih depth
    · exact ih depth

/-- The items of bare terms come to what the items of the terms come to, without the spans. -/
theorem fuseItems_bare (ts : List Term) (s : LevelState) :
    fuseItems settings flags s.bare (Item.all settings (ts.map Term.bare)) =
      (fuseItems settings flags s (Item.all settings ts)).bare := by
  cases ts with
  | nil => rfl
  | cons t ts =>
    have hlater (s : LevelState) := fuseItems_bare ts s
    rw [List.map_cons, Item.all_cons, Item.all_cons, Role.of_bare]
    cases Role.of settings t with
    | or => exact hlater { s with connective := .or }
    | and => exact hlater { s with connective := .and }
    | not =>
      dsimp only [fuseItems, fuseItem]
      rw [span_bare, ← LevelState.bare_negate s t.span]
      exact hlater (s.negate t.span)
    | opens =>
      have := length_behind_le settings 0 ts
      dsimp only [fuseItems, fuseItem]
      have hinner : (fuseItems settings flags {} (Item.all settings (ts.map Term.bare))).fused =
          (fuseItems settings flags {} (Item.all settings ts)).fused.bare :=
        congrArg LevelState.fused (hlater {})
      rw [behind_map_bare, hinner, ← LevelState.bare_add]
      exact fuseItems_bare (behind settings 0 ts) _
    | closes => rfl
    | skipped => exact hlater s
    | plain =>
      dsimp only [fuseItems, fuseItem]
      have hcontext : (s.bare.context.after t.bare) = s.context.after t := ResourceContext.after_bare _ t
      rw [← hlater, LevelState.bare_add, ← tune_bare, hcontext]
      rfl
termination_by ts.length

/-- Spans make no difference to fusion. -/
theorem fuse_bare (ts : List Term) :
    (fuse settings flags (ts.map Term.bare) 0).1 = (fuse settings flags ts 0).1.bare :=
  congrArg LevelState.fused (fuseItems_bare ts {})

end DesktopSearch
