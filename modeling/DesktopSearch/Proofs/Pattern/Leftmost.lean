import DesktopSearch.Proofs.Pattern.Rewriting

/-!
# Rewriting from the left

A step of rewriting changes the first window at which the pattern matches and the reading answers, and
nothing else (`LeftmostStep`). `rewrite_leftmost` : rewriting a list is a chain of such steps, as many as
it counts and `maxRewrites` at most, and where it counts fewer no step can follow. `step?` is a step of
this kind (`step?_eq_some_iff`), so there is only one chain of each length.
-/

namespace DesktopSearch

/-! ## Windows -/

/-- `us` is `ts` with the terms of one window, the `i`-th place of `ts` being its first, replaced by what
the reading answers for them. A single answer takes over the span of the window. -/
structure RewritesAt (p : Pattern) (reader : Reader) (ts : List Term) (i : Nat)
    (us : List Term) : Prop where
  inside : i < ts.length
  window : ∃ before window after taken, ts = before ++ (window ++ after) ∧ before.length = i ∧
    p.matchAt (window ++ after) = .matched taken ∧ taken.length = window.length ∧
    reader (taken.captures p.slotCount) ≠ [] ∧
    us = before ++ (placed window (reader (taken.captures p.slotCount)) ++ after)

/-- The window of `us` is the first one of `ts` that can be rewritten. -/
def LeftmostStep (p : Pattern) (reader : Reader) (ts us : List Term) : Prop :=
  ∃ i, RewritesAt p reader ts i us ∧ ∀ j < i, ∀ vs, ¬RewritesAt p reader ts j vs

variable {p : Pattern} {reader : Reader} {t : Term} {ts us : List Term}

/-- A match takes no more terms than there are. -/
theorem Part.length_le_of_matchAll {x y : Taken} {parts : List Part}
    (h : Part.matchAll x parts ts = .matched y) : y.length ≤ x.length + ts.length := by
  fun_induction Part.matchAll x parts ts with
  | case1 x ts =>
    obtain rfl := Outcome.matched.inj h
    exact Nat.le_add_right _ _
  | case2 x _ => exact absurd h (Outcome.atEnd_ne_matched x y)
  | case3 x _ =>
    obtain rfl := Outcome.matched.inj h
    exact Nat.le_add_right _ _
  | case4 x part parts _ => exact absurd h (Outcome.atEnd_ne_matched x y)
  | case5 x slot parts t ts ih =>
    have hlen := ih h
    simp only [Taken.capture, List.length_cons] at hlen ⊢
    omega
  | case6 x k parts t ts _ ih =>
    have hlen := ih h
    simp only [Taken.keyword, List.length_cons] at hlen ⊢
    omega
  | case7 => simp at h
  | case8 x t ts =>
    obtain rfl := Outcome.matched.inj h
    exact Nat.le_refl _
  | case9 x part parts t ts _ => exact absurd h (Outcome.atEnd_ne_matched _ y)
  | case10 x part parts t ts taken _ ih =>
    have hlen := ih h
    have hall : taken.length + ((t :: ts).dropWhile (!part.accepts ·)).length =
        (t :: ts).length := by
      rw [← List.length_append, List.takeWhile_append_dropWhile]
    simp only [Taken.next, Taken.extend] at hlen
    omega

/-- `rewriteHere?` rewrites the window at the start of a list. -/
theorem rewriteHere?_eq_some_iff (hts : ts ≠ []) :
    rewriteHere? p reader ts = some us ↔ RewritesAt p reader ts 0 us := by
  constructor
  · intro h
    refine ⟨List.length_pos_iff.2 hts, ?_⟩
    rw [rewriteHere?] at h
    split at h
    · rename_i taken hmatch
      dsimp only at h
      split at h
      · simp at h
      · rename_i hnew
        have hlen : taken.length ≤ 0 + ts.length := Part.length_le_of_matchAll hmatch
        have hsplit := List.take_append_drop taken.length ts
        refine ⟨[], ts.take taken.length, ts.drop taken.length, taken, hsplit.symm, rfl, ?_, ?_,
          by simpa using hnew, (Option.some.inj h).symm⟩
        · rw [hsplit]
          exact hmatch
        · rw [List.length_take]
          omega
    · simp at h
  · rintro ⟨-, before, window, after, taken, rfl, hbefore, hmatch, hlen, hnew, rfl⟩
    obtain rfl := List.length_eq_zero_iff.1 hbefore
    rw [rewriteHere?, List.nil_append, hmatch]
    simp [hnew, hlen]

/-- Windows further on are windows of the rest of the list. -/
theorem rewritesAt_cons_succ_iff {i : Nat} :
    RewritesAt p reader (t :: ts) (i + 1) us ↔ ∃ vs, us = t :: vs ∧ RewritesAt p reader ts i vs := by
  constructor
  · rintro ⟨hinside, before, window, after, taken, hsplit, hbefore, hmatch, hlen, hnew, rfl⟩
    obtain ⟨b, before, rfl⟩ := List.exists_cons_of_length_eq_add_one hbefore
    rw [List.cons_append] at hsplit
    obtain ⟨rfl, rfl⟩ := List.cons.inj hsplit
    exact ⟨_, List.cons_append, Nat.lt_of_succ_lt_succ hinside, before, window, after, taken, rfl,
      Nat.succ.inj hbefore, hmatch, hlen, hnew, rfl⟩
  · rintro ⟨vs, rfl, hinside, before, window, after, taken, rfl, rfl, hmatch, hlen, hnew, rfl⟩
    exact ⟨Nat.succ_lt_succ hinside, t :: before, window, after, taken, rfl, rfl, hmatch, hlen, hnew,
      rfl⟩

/-! ## Steps -/

/-- The first window of a list is the one at its start, or else the first one of the rest. -/
theorem leftmostStep_cons_iff : LeftmostStep p reader (t :: ts) us ↔
    RewritesAt p reader (t :: ts) 0 us ∨ (∀ vs, ¬RewritesAt p reader (t :: ts) 0 vs) ∧
      ∃ vs, us = t :: vs ∧ LeftmostStep p reader ts vs := by
  constructor
  · rintro ⟨i, hi, hfirst⟩
    cases i with
    | zero => exact Or.inl hi
    | succ i =>
      obtain ⟨vs, rfl, hrest⟩ := rewritesAt_cons_succ_iff.1 hi
      refine Or.inr ⟨hfirst 0 (Nat.succ_pos i), vs, rfl, i, hrest, fun j hj ws hws => ?_⟩
      exact hfirst (j + 1) (Nat.succ_lt_succ hj) (t :: ws)
        (rewritesAt_cons_succ_iff.2 ⟨ws, rfl, hws⟩)
  · rintro (h | ⟨hnone, vs, rfl, i, hi, hfirst⟩)
    · exact ⟨0, h, fun j hj => absurd hj (Nat.not_lt_zero j)⟩
    · refine ⟨i + 1, rewritesAt_cons_succ_iff.2 ⟨vs, rfl, hi⟩, fun j hj ws hws => ?_⟩
      cases j with
      | zero => exact hnone ws hws
      | succ j =>
        obtain ⟨xs, rfl, hxs⟩ := rewritesAt_cons_succ_iff.1 hws
        exact hfirst j (Nat.lt_of_succ_lt_succ hj) xs hxs

/-- `step?` takes the leftmost step. -/
theorem step?_eq_some_iff : step? p reader ts = some us ↔ LeftmostStep p reader ts us := by
  induction ts generalizing us with
  | nil =>
    constructor
    · simp [step?]
    · rintro ⟨i, hi, -⟩
      exact absurd hi.inside (Nat.not_lt_zero i)
  | cons t ts ih =>
    rw [leftmostStep_cons_iff]
    simp only [← rewriteHere?_eq_some_iff (List.cons_ne_nil t ts), ← ih]
    rw [step?]
    cases hhere : rewriteHere? p reader (t :: ts) with
    | some new => simp
    | none => simp [Option.map_eq_some_iff, eq_comm, and_comm]

/-- There is at most one step from a list. -/
theorem LeftmostStep.unique {vs : List Term} (h : LeftmostStep p reader ts us)
    (h' : LeftmostStep p reader ts vs) : us = vs :=
  Option.some.inj ((step?_eq_some_iff.2 h).symm.trans (step?_eq_some_iff.2 h'))

/-- No step leads on from a list. -/
def IsRewritten (p : Pattern) (reader : Reader) (ts : List Term) : Prop :=
  ∀ us, ¬LeftmostStep p reader ts us

theorem step?_eq_none_iff : step? p reader ts = none ↔ IsRewritten p reader ts := by
  rw [Option.eq_none_iff_forall_ne_some]
  exact forall_congr' fun us => not_congr step?_eq_some_iff

/-! ## Runs -/

/-- `us` is what `n` steps make of `ts`. -/
inductive LeftmostSteps (p : Pattern) (reader : Reader) : Nat → List Term → List Term → Prop
  | refl (ts : List Term) : LeftmostSteps p reader 0 ts ts
  | head {n : Nat} {ts us vs : List Term} (first : LeftmostStep p reader ts us)
    (rest : LeftmostSteps p reader n us vs) : LeftmostSteps p reader (n + 1) ts vs

theorem LeftmostSteps.unique {n : Nat} {vs : List Term} (h : LeftmostSteps p reader n ts us)
    (h' : LeftmostSteps p reader n ts vs) : us = vs := by
  induction h with
  | refl ts =>
    cases h' with
    | refl => rfl
  | head first _ ih =>
    cases h' with
    | head first' rest' =>
      obtain rfl := first.unique first'
      exact ih rest'

/-- Rewriting with a limit makes the steps it counts, up to the limit, and ends before the limit only
where no step is left. -/
theorem rewriteWithin_leftmost (p : Pattern) (reader : Reader) (limit : Nat) (ts : List Term) :
    (rewriteWithin p reader limit ts).steps ≤ limit ∧
    LeftmostSteps p reader (rewriteWithin p reader limit ts).steps ts
      (rewriteWithin p reader limit ts).terms ∧
    ((rewriteWithin p reader limit ts).steps < limit →
      IsRewritten p reader (rewriteWithin p reader limit ts).terms) := by
  induction limit generalizing ts with
  | zero => exact ⟨Nat.le_refl 0, .refl ts, fun h => absurd h (Nat.not_lt_zero 0)⟩
  | succ limit ih =>
    rw [rewriteWithin]
    split
    · rename_i hstep
      exact ⟨Nat.zero_le _, .refl ts, fun _ => step?_eq_none_iff.1 hstep⟩
    · rename_i new hstep
      obtain ⟨hle, hsteps, hend⟩ := ih new
      exact ⟨Nat.succ_le_succ hle, .head (step?_eq_some_iff.1 hstep) hsteps,
        fun h => hend (Nat.lt_of_succ_lt_succ h)⟩

/-- Rewriting is leftmost rewriting: it makes `maxRewrites` steps at most, each of them at the first
window that can be rewritten, comes to the one list that so many steps lead to, and ends earlier only
where no window is left. -/
theorem rewrite_leftmost (p : Pattern) (reader : Reader) (ts : List Term) :
    (rewrite p reader ts).steps ≤ 4096 ∧
    (∀ us, LeftmostSteps p reader (rewrite p reader ts).steps ts us ↔
      us = (rewrite p reader ts).terms) ∧
    ((rewrite p reader ts).steps < 4096 → IsRewritten p reader (rewrite p reader ts).terms) := by
  obtain ⟨hle, hsteps, hend⟩ := rewriteWithin_leftmost p reader maxRewrites ts
  refine ⟨hle, fun us => ⟨fun h => h.unique hsteps, ?_⟩, hend⟩
  rintro rfl
  exact hsteps

end DesktopSearch
