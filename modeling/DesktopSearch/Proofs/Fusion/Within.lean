import DesktopSearch.Proofs.Fusion.Level
import DesktopSearch.Proofs.Term.Within

/-!
# Fusing inside the input

A term is tuned where it stands : the bounds that it may become take over its span. The terms of a level are
joined under spans that cover them, and negated under one that covers the negations too. So a list of terms
inside the input is fused to a term inside the input (`within_fuse`), by recursion over its levels.
-/

namespace DesktopSearch

variable {n : Nat} {settings : Settings} {flags : ParserFlags}

/-! ## Tuning -/

namespace Term.Within

theorem between (property : Option Uri) (low high : Literal) {s : Span} (hs : s.stop ≤ n) :
    (Term.between property low high s).Within n := by
  have hbound (l : Literal) (c : Comparator) :
      ((compare property (literal s l) c).withSpan s).Within n :=
    comparison hs _ (of_childless hs rfl)
  refine group hs .and ?_
  rw [List.forall_mem_cons, List.forall_mem_singleton]
  exact ⟨hbound low .greaterOrEqual, hbound high .smallerOrEqual⟩

theorem tune {t : Term} (h : t.Within n) (c : ResourceContext) :
    (tune settings flags c t).Within n := by
  have hs := h.stop_le
  cases t with
  | literal s l =>
    cases l with
    | string word =>
      rw [DesktopSearch.tune]
      split
      · exact of_childless hs rfl
      · exact h
    | boolean b => exact h
    | integer m => exact between _ _ _ hs
    | double d => exact between _ _ _ hs
    | dateTime m => exact between _ _ _ hs
  | comparison s head value =>
    rw [DesktopSearch.tune, tuneComparison]
    split
    · exact between _ _ _ hs
    · exact comparison hs _ (h.child (by simp))
  | _ => exact h

end Term.Within

/-! ## Levels -/

/-- What has been read of a level lies inside the input, the negations of the next item included. -/
structure LevelState.Within (n : Nat) (s : LevelState) : Prop where
  fused : s.fused.Within n
  negation : ∀ span ∈ s.negation, span.stop ≤ n

namespace LevelState.Within

variable {s : LevelState} {t : Term}

theorem start : LevelState.Within n {} := ⟨.nothing, by simp⟩

theorem negate (h : s.Within n) {span : Span} (hspan : span.stop ≤ n) : (s.negate span).Within n := by
  refine ⟨h.fused, fun all hall => ?_⟩
  obtain rfl := Option.some.inj hall
  refine Span.stop_union_le ?_ hspan
  cases hnegation : s.negation with
  | none => exact Nat.zero_le n
  | some before => exact h.negation before hnegation

theorem add (h : s.Within n) (ht : t.Within n) : (s.add t).Within n := by
  refine ⟨?_, by simp [LevelState.add]⟩
  rw [LevelState.add]
  refine h.fused.append ?_ _
  cases hnegation : s.negation with
  | none => exact ht
  | some span => exact ht.negate (Span.stop_union_le ht.stop_le (h.negation span hnegation))

end LevelState.Within

/-- The items of terms inside the input are joined to a term inside the input. -/
theorem within_fuseItems {ts : List Term} (hts : ∀ t ∈ ts, t.Within n) {s : LevelState}
    (hs : s.Within n) : (fuseItems settings flags s (Item.all settings ts)).Within n := by
  match ts with
  | [] => exact hs
  | t :: ts =>
    obtain ⟨ht, hts⟩ := List.forall_mem_cons.1 hts
    have hlater {s : LevelState} (hs : s.Within n) :
        (fuseItems settings flags s (Item.all settings ts)).Within n := within_fuseItems hts hs
    rw [Item.all_cons]
    cases Role.of settings t with
    | or => exact hlater ⟨hs.fused, hs.negation⟩
    | and => exact hlater ⟨hs.fused, hs.negation⟩
    | not => exact hlater (hs.negate ht.stop_le)
    | opens =>
      have := length_behind_le settings 0 ts
      have hbehind : ∀ u ∈ behind settings 0 ts, u.Within n := fun u hu =>
        hts u ((behind_suffix settings 0 ts).subset hu)
      exact within_fuseItems hbehind (hs.add (hlater .start).fused)
    | closes => exact hs
    | skipped => exact hlater hs
    | plain => exact hlater (.add ⟨hs.fused, hs.negation⟩ (ht.tune _))
termination_by ts.length

/-- A list of terms inside the input is fused to a term inside the input. -/
theorem within_fuse {ts : List Term} (hts : ∀ t ∈ ts, t.Within n) :
    (fuse settings flags ts 0).1.Within n :=
  (within_fuseItems hts .start).fused

end DesktopSearch
