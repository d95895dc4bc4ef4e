import DesktopSearch.Pattern.Rewriting
import Mathlib.Data.List.TakeWhile

/-!
# What rewriting keeps

A pattern captures terms of the list it is laid over, and nothing in the slots that it does not name. So
a property of terms that a reading keeps, whatever has it among the captured terms, is kept by every
step of rewriting and by all of it (`rewrite_keeps`), as long as the property does not look at spans. If it
does, it has to be kept together with the span of the window (`KeepsWindows`); the matches that stop on the
way cover terms with the property, too.
-/

namespace DesktopSearch

variable {P : Term → Prop}

/-! ## Captures -/

/-- Everything that was captured has the property. -/
structure Taken.Holds (P : Term → Prop) (x : Taken) : Prop where
  slots : ∀ e ∈ x.slots, P e.2
  run : ∀ t ∈ x.run, P t

namespace Taken.Holds

variable {x : Taken}

theorem empty : Taken.Holds P {} := ⟨by simp, by simp⟩

theorem capture (h : x.Holds P) (slot : Nat) {t : Term} (ht : P t) :
    (x.capture slot t).Holds P :=
  ⟨List.forall_mem_append.2 ⟨h.slots, by simpa using ht⟩, h.run⟩

theorem extend (h : x.Holds P) {ts : List Term} (hts : ∀ t ∈ ts, P t) :
    (x.extend ts).Holds P :=
  ⟨h.slots, List.forall_mem_append.2 ⟨h.run, hts⟩⟩

/-- A slot that is not named holds nothing. -/
theorem captures (h : x.Holds P) (slotCount : Nat) :
    ∀ t ∈ x.captures slotCount, P t ∨ t = .nothing := by
  intro t ht
  rw [Taken.captures, List.mem_append, List.mem_map] at ht
  rcases ht with ⟨i, -, rfl⟩ | ht
  · cases hfind : x.slots.reverse.find? (·.1 == i) with
    | none => exact Or.inr rfl
    | some e =>
      exact Or.inl (h.slots e (List.mem_reverse.1 (List.mem_of_find?_eq_some hfind)))
  · exact Or.inl (h.run t ht)

end Taken.Holds

theorem Outcome.atEnd_ne_matched (x y : Taken) : Outcome.atEnd x ≠ .matched y := by
  rw [Outcome.atEnd]
  split <;> simp

/-- What a match captures comes from the list. -/
theorem Part.holds_of_matchAll {x y : Taken} {parts : List Part} {ts : List Term}
    (hx : x.Holds P) (hts : ∀ t ∈ ts, P t) (h : Part.matchAll x parts ts = .matched y) :
    y.Holds P := by
  fun_induction Part.matchAll x parts ts with
  | case1 x ts =>
    obtain rfl := Outcome.matched.inj h
    exact hx
  | case2 x hrun => exact absurd h (Outcome.atEnd_ne_matched x y)
  | case3 x hrun =>
    obtain rfl := Outcome.matched.inj h
    exact hx
  | case4 x part parts _ => exact absurd h (Outcome.atEnd_ne_matched x y)
  | case5 x slot parts t ts ih =>
    exact ih (hx.capture slot (hts t (by simp))) (fun u hu => hts u (by simp [hu])) h
  | case6 x k parts t ts _ ih =>
    exact ih ⟨hx.slots, hx.run⟩ (fun u hu => hts u (by simp [hu])) h
  | case7 => simp at h
  | case8 x t ts =>
    obtain rfl := Outcome.matched.inj h
    exact hx.extend hts
  | case9 x part parts t ts _ => exact absurd h (Outcome.atEnd_ne_matched _ y)
  | case10 x part parts t ts taken _ ih =>
    have htaken : (x.extend taken).Holds P :=
      hx.extend fun u hu => hts u (List.takeWhile_subset _ hu)
    exact ih ⟨htaken.slots, htaken.run⟩ (fun u hu => hts u (List.dropWhile_subset _ hu)) h

/-! ## Steps -/

/-- A reading keeps a property: it answers with terms that have it if the captured ones have it. -/
def Keeps (P : Term → Prop) (reader : Reader) : Prop :=
  ∀ ts, (∀ t ∈ ts, P t ∨ t = .nothing) → ∀ u ∈ reader ts, P u

/-- A property that does not look at spans. -/
def IgnoresSpans (P : Term → Prop) : Prop := ∀ t s, P t → P (t.withSpan s)

variable {p : Pattern} {reader : Reader} {ts new : List Term}

theorem placed_keeps (hspan : IgnoresSpans P) {window : List Term} (h : ∀ t ∈ new, P t) :
    ∀ t ∈ placed window new, P t := by
  unfold placed
  split
  · rw [List.forall_mem_singleton] at h ⊢
    exact hspan _ _ h
  · exact h

/-- A reading keeps a property where it rewrites : if the terms of a window have it, so do the terms that take
their place. -/
def KeepsWindows (P : Term → Prop) (reader : Reader) : Prop :=
  ∀ window ts, (∀ t ∈ window, P t) → (∀ t ∈ ts, P t ∨ t = .nothing) →
    ∀ u ∈ placed window (reader ts), P u

theorem Keeps.keepsWindows (hspan : IgnoresSpans P) (hr : Keeps P reader) : KeepsWindows P reader :=
  fun _ ts _ hts => placed_keeps hspan (hr ts hts)

theorem rewriteHere?_keeps (hr : KeepsWindows P reader) (hts : ∀ t ∈ ts, P t)
    (h : rewriteHere? p reader ts = some new) : ∀ t ∈ new, P t := by
  rw [rewriteHere?] at h
  split at h
  · rename_i x hmatch
    dsimp only at h
    split at h
    · simp at h
    · obtain rfl := Option.some.inj h
      have hx := Part.holds_of_matchAll Taken.Holds.empty hts hmatch
      refine List.forall_mem_append.2 ⟨?_, fun t ht => hts t (List.mem_of_mem_drop ht)⟩
      exact hr _ _ (fun t ht => hts t (List.mem_of_mem_take ht)) (hx.captures _)
  · simp at h

theorem step?_keeps (hr : KeepsWindows P reader) (hts : ∀ t ∈ ts, P t)
    (h : step? p reader ts = some new) : ∀ t ∈ new, P t := by
  induction ts generalizing new with
  | nil => simp [step?] at h
  | cons t ts ih =>
    rw [step?] at h
    split at h
    · rename_i hhere
      exact Option.some.inj h ▸ rewriteHere?_keeps hr hts hhere
    · obtain ⟨rest, hrest, rfl⟩ := Option.map_eq_some_iff.1 h
      rw [List.forall_mem_cons] at hts ⊢
      exact ⟨hts.1, ih hts.2 hrest⟩

theorem rewriteWithin_keeps (hr : KeepsWindows P reader) (limit : Nat) (hts : ∀ t ∈ ts, P t) :
    ∀ t ∈ (rewriteWithin p reader limit ts).terms, P t := by
  induction limit generalizing ts with
  | zero => exact hts
  | succ limit ih =>
    rw [rewriteWithin]
    split
    · exact hts
    · rename_i hstep
      exact ih (step?_keeps hr hts hstep)

/-- Rewriting keeps what its reading keeps. -/
theorem rewrite_keeps (hspan : IgnoresSpans P) (hr : Keeps P reader) (hts : ∀ t ∈ ts, P t) :
    ∀ t ∈ (rewrite p reader ts).terms, P t :=
  rewriteWithin_keeps (hr.keepsWindows hspan) maxRewrites hts

/-! ## Matches that stop -/

theorem stopped_of_mem_trials {parts : Nat} {span : Span} (hts : ∀ t ∈ ts, P t)
    (h : .stopped parts span ∈ trials p reader ts) :
    ∃ window, (∀ t ∈ window, P t) ∧ span = Term.spanOf window := by
  induction ts with
  | nil => simp [trials] at h
  | cons t ts ih =>
    have hhere (h : .stopped parts span ∈ (trialHere? p (t :: ts)).toList) :
        ∃ window, (∀ t ∈ window, P t) ∧ span = Term.spanOf window := by
      rw [Option.mem_toList, trialHere?] at h
      split at h
      · simp at h
      · rename_i x _
        simp only [Option.some.injEq, Trial.stopped.injEq] at h
        exact ⟨_, fun u hu => hts u (List.mem_of_mem_take hu), h.2.symm⟩
      · simp at h
    rw [trials] at h
    split at h
    · exact hhere h
    · exact (List.mem_append.1 h).elim hhere (ih (List.forall_mem_cons.1 hts).2)

/-- A match that stops covers terms which have what the reading keeps. -/
theorem stopped_of_mem_rewriteWithin (hr : KeepsWindows P reader) {limit parts : Nat} {span : Span}
    (hts : ∀ t ∈ ts, P t) (h : .stopped parts span ∈ (rewriteWithin p reader limit ts).trials) :
    ∃ window, (∀ t ∈ window, P t) ∧ span = Term.spanOf window := by
  induction limit generalizing ts with
  | zero => simp [rewriteWithin] at h
  | succ limit ih =>
    rw [rewriteWithin] at h
    split at h
    · exact stopped_of_mem_trials hts h
    · rename_i hstep
      exact (List.mem_append.1 h).elim (stopped_of_mem_trials hts)
        (ih (step?_keeps hr hts hstep))

end DesktopSearch
