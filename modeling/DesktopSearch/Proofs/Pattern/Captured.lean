import DesktopSearch.Proofs.Pattern.Leftmost

/-!
# What rewriting captures

Among the matches that a rewriting looks at there are those that its reading understands (`Trial.read?`), one
for each of its steps. So a rewriting is a chain of steps with the terms that each of them captures
(`rewriteWithin_capturing`).

A pattern without slots captures a run, and a window that it matches holds literals besides, if anything
(`RewritesWindow.mem_of_literal?_eq_none`).
-/

namespace DesktopSearch

variable {p : Pattern} {reader : Reader} {t : Term} {ts us cs : List Term}

/-! ## Steps and their captures -/

/-- The captured terms of a match that the reading understands. -/
def Trial.read? (reader : Reader) : Trial → Option (List Term)
  | .matched cs => if (reader cs).isEmpty then none else some cs
  | .stopped .. => none

/-- `us` is `ts` with the terms of a window, which captures `cs`, replaced by what the reading answers. -/
structure RewritesWindow (p : Pattern) (reader : Reader) (ts cs us : List Term) : Prop where
  answers : reader cs ≠ []
  window : ∃ before window after taken, ts = before ++ (window ++ after) ∧
    p.matchAt (window ++ after) = .matched taken ∧ taken.length = window.length ∧
    cs = taken.captures p.slotCount ∧ us = before ++ (placed window (reader cs) ++ after)

theorem RewritesWindow.cons (h : RewritesWindow p reader ts cs us) (t : Term) :
    RewritesWindow p reader (t :: ts) cs (t :: us) := by
  obtain ⟨hanswers, before, window, after, taken, rfl, hmatch, hlen, hcs, rfl⟩ := h
  exact ⟨hanswers, t :: before, window, after, taken, rfl, hmatch, hlen, hcs, rfl⟩

/-- The match at the start is the one that is rewritten there. -/
theorem captured_of_rewriteHere? (hts : ts ≠ []) (h : rewriteHere? p reader ts = some us) :
    ∃ cs, RewritesWindow p reader ts cs us ∧
      (trialHere? p ts).toList.filterMap (Trial.read? reader) = [cs] := by
  obtain ⟨-, before, window, after, taken, rfl, hbefore, hmatch, hlen, hnew, rfl⟩ :=
    (rewriteHere?_eq_some_iff hts).1 h
  refine ⟨taken.captures p.slotCount,
    ⟨hnew, before, window, after, taken, rfl, hmatch, hlen, rfl, rfl⟩, ?_⟩
  obtain rfl := List.length_eq_zero_iff.1 hbefore
  rw [List.nil_append, trialHere?, hmatch]
  simp [Trial.read?, hnew]

theorem not_captured_of_rewriteHere? (h : rewriteHere? p reader ts = none) :
    (trialHere? p ts).toList.filterMap (Trial.read? reader) = [] := by
  rw [rewriteHere?] at h
  rw [trialHere?]
  split at h
  · rename_i taken hmatch
    rw [hmatch]
    simpa [Trial.read?] using h
  · split <;> simp_all [Trial.read?]

/-- Of the matches that a step looks at the reading understands the one that is rewritten. -/
theorem captured_of_step? (h : step? p reader ts = some us) :
    ∃ cs, RewritesWindow p reader ts cs us ∧
      (trials p reader ts).filterMap (Trial.read? reader) = [cs] := by
  induction ts generalizing us with
  | nil => simp [step?] at h
  | cons t ts ih =>
    rw [step?] at h
    split at h
    · rename_i new hhere
      obtain rfl := Option.some.inj h
      obtain ⟨cs, hwindow, hcs⟩ := captured_of_rewriteHere? (List.cons_ne_nil t ts) hhere
      exact ⟨cs, hwindow, by rw [trials, if_pos (by simp [hhere]), hcs]⟩
    · rename_i hhere
      obtain ⟨vs, hvs, rfl⟩ := Option.map_eq_some_iff.1 h
      obtain ⟨cs, hwindow, hcs⟩ := ih hvs
      refine ⟨cs, hwindow.cons t, ?_⟩
      rw [trials, if_neg (by simp [hhere]), List.filterMap_append, not_captured_of_rewriteHere? hhere,
        hcs]
      rfl

theorem not_captured_of_step? (h : step? p reader ts = none) :
    (trials p reader ts).filterMap (Trial.read? reader) = [] := by
  induction ts with
  | nil => rfl
  | cons t ts ih =>
    rw [step?] at h
    split at h
    · simp at h
    · rename_i hhere
      rw [trials, if_neg (by simp [hhere]), List.filterMap_append, not_captured_of_rewriteHere? hhere,
        ih (Option.map_eq_none_iff.1 h)]
      rfl

/-! ## Chains of steps -/

/-- `us` is what some steps make of `ts`, each with the terms that it captures. -/
inductive Capturing (R : List Term → List Term → List Term → Prop) :
    List Term → List (List Term) → List Term → Prop
  | refl (ts : List Term) : Capturing R ts [] ts
  | head {ts cs us vs : List Term} {css : List (List Term)} (first : R ts cs us)
    (rest : Capturing R us css vs) : Capturing R ts (cs :: css) vs

namespace Capturing

variable {R : List Term → List Term → List Term → Prop} {css dss : List (List Term)} {vs : List Term}

theorem trans (h : Capturing R ts css us) (h' : Capturing R us dss vs) :
    Capturing R ts (css ++ dss) vs := by
  induction h with
  | refl ts => exact h'
  | head first _ ih => exact .head first (ih h')

/-- Some of the steps come first, the others after them. -/
theorem exists_of_append (h : Capturing R ts (css ++ dss) vs) :
    ∃ us, Capturing R ts css us ∧ Capturing R us dss vs := by
  induction css generalizing ts with
  | nil => exact ⟨ts, .refl ts, h⟩
  | cons cs css ih =>
    cases h with
    | head first rest =>
      obtain ⟨us, hfirst, hrest⟩ := ih rest
      exact ⟨us, .head first hfirst, hrest⟩

end Capturing

/-- Rewriting captures what its reading understands, step by step. -/
theorem rewriteWithin_capturing {R : List Term → List Term → List Term → Prop}
    (hR : ∀ {ts cs us}, RewritesWindow p reader ts cs us → R ts cs us) (limit : Nat) (ts : List Term) :
    Capturing R ts ((rewriteWithin p reader limit ts).trials.filterMap (Trial.read? reader))
      (rewriteWithin p reader limit ts).terms := by
  induction limit generalizing ts with
  | zero => exact .refl ts
  | succ limit ih =>
    rw [rewriteWithin]
    split
    · rename_i hstep
      dsimp only
      rw [not_captured_of_step? hstep]
      exact .refl ts
    · rename_i new hstep
      obtain ⟨cs, hwindow, hcs⟩ := captured_of_step? hstep
      dsimp only
      rw [List.filterMap_append, hcs]
      exact .head (hR hwindow) (ih new)

/-! ## Patterns without slots -/

/-- Whether the part names a slot. -/
def Part.isSlot : Part → Bool
  | .capture _ => true
  | _ => false

/-- The pattern is made of keywords and runs. -/
def Pattern.IsSlotless (p : Pattern) : Prop := ∀ part ∈ p.parts, part.isSlot = false

theorem Pattern.IsSlotless.slotCount_eq (hp : p.IsSlotless) : p.slotCount = 0 := by
  refine List.foldlRecOn (motive := fun n : Nat => n = 0) p.parts _ rfl fun n hn part hpart => ?_
  cases part with
  | capture slot => exact absurd (hp _ hpart) (by simp [Part.isSlot])
  | _ => exact hn

/-- Parts without slots take terms for their runs, and literals for their keywords. -/
theorem Part.mem_run_of_matchAll {x y : Taken} {parts : List Part}
    (hparts : ∀ part ∈ parts, part.isSlot = false) (h : Part.matchAll x parts ts = .matched y) :
    x.run ⊆ y.run ∧ ∃ window after, ts = window ++ after ∧ y.length = x.length + window.length ∧
      ∀ t ∈ window, t.literal? = none → t ∈ y.run := by
  fun_induction Part.matchAll x parts ts with
  | case1 x ts =>
    obtain rfl := Outcome.matched.inj h
    exact ⟨List.Subset.refl _, [], ts, rfl, rfl, by simp⟩
  | case2 x _ => exact absurd h (Outcome.atEnd_ne_matched x y)
  | case3 x _ =>
    obtain rfl := Outcome.matched.inj h
    exact ⟨List.Subset.refl _, [], [], rfl, rfl, by simp⟩
  | case4 x part parts _ => exact absurd h (Outcome.atEnd_ne_matched x y)
  | case5 x slot parts t ts ih => exact absurd (hparts _ List.mem_cons_self) (by simp [Part.isSlot])
  | case6 x k parts t ts haccepts ih =>
    obtain ⟨hrun, window, after, rfl, hlen, hwindow⟩ :=
      ih (fun part hpart => hparts part (List.mem_cons_of_mem _ hpart)) h
    refine ⟨hrun, t :: window, after, rfl, ?_, List.forall_mem_cons.2 ⟨fun ht => ?_, hwindow⟩⟩
    · simp only [Taken.keyword, List.length_cons] at hlen ⊢
      omega
    · simp [Part.accepts, ht] at haccepts
  | case7 => simp at h
  | case8 x t ts =>
    obtain rfl := Outcome.matched.inj h
    exact ⟨List.subset_append_left _ _, t :: ts, [], (List.append_nil _).symm, rfl,
      fun u hu _ => List.mem_append_right _ hu⟩
  | case9 x part parts t ts _ => exact absurd h (Outcome.atEnd_ne_matched _ y)
  | case10 x part parts t ts taken _ ih =>
    obtain ⟨hrun, window, after, hsplit, hlen, hwindow⟩ :=
      ih (fun part hpart => hparts part (List.mem_cons_of_mem _ hpart)) h
    obtain ⟨hx, htaken⟩ := List.append_subset.1 hrun
    refine ⟨hx, taken ++ window, after, ?_, ?_,
      List.forall_mem_append.2 ⟨fun u hu _ => htaken hu, hwindow⟩⟩
    · rw [List.append_assoc, ← hsplit]
      exact List.takeWhile_append_dropWhile.symm
    · simp only [Taken.next, Taken.extend, List.length_append] at hlen ⊢
      omega

/-- What is no literal in a window of a pattern without slots is captured. -/
theorem RewritesWindow.mem_of_literal?_eq_none (hp : p.IsSlotless)
    (h : RewritesWindow p reader ts cs us) :
    ∃ before window after, ts = before ++ (window ++ after) ∧
      us = before ++ (placed window (reader cs) ++ after) ∧
      ∀ t ∈ window, t.literal? = none → t ∈ cs := by
  obtain ⟨-, before, window, after, taken, rfl, hmatch, hlen, hcs, rfl⟩ := h
  refine ⟨before, window, after, rfl, rfl, ?_⟩
  obtain ⟨-, window', after', hsplit, hlen', hwindow⟩ := Part.mem_run_of_matchAll hp hmatch
  rw [hlen] at hlen'
  obtain ⟨rfl, -⟩ := List.append_inj hsplit (by simpa using hlen')
  rw [hcs, hp.slotCount_eq]
  simpa [Taken.captures] using hwindow

end DesktopSearch
