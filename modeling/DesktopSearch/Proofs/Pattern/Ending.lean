import DesktopSearch.Proofs.Pattern.Leftmost
import DesktopSearch.Proofs.Pattern.Segment

/-!
# Rewriting that ends

A step of rewriting writes new terms in the place of a window, often more of them than the window had. It ends
all the same if among the terms of the window there is one of a sort that is never written (`UsesUp`) : every
step takes such a term away and brings none in, so there are no more steps than terms of the sort
(`LeftmostSteps.add_countP_le`). `UsesUp.ends` says what this means for a list : after as many steps as it has
terms, at most, no window is left, and a limit beyond that is never met.

What a window holds is read off its segments : a captured term that says something is a term of the window
(`mem_window_of_mem_captures`), a slot that is named holds one (`exists_getElem?_captures`), and a keyword
is met by a literal (`exists_literal_mem_window`).
-/

namespace DesktopSearch

variable {P : Term → Bool} {p : Pattern} {reader : Reader} {ts us : List Term}

/-! ## Terms that are used up -/

/-- Wherever a window is rewritten, one of its terms is of the sort `P`, and no answer is. -/
def UsesUp (P : Term → Bool) (p : Pattern) (reader : Reader) : Prop :=
  ∀ window after taken, p.matchAt (window ++ after) = .matched taken → taken.length = window.length →
    reader (taken.captures p.slotCount) ≠ [] →
    (∃ t ∈ window, P t = true) ∧ ∀ u ∈ reader (taken.captures p.slotCount), P u = false

/-- A step leaves fewer terms of the sort. -/
theorem LeftmostStep.countP_lt (hspan : ∀ t s, P (t.withSpan s) = P t) (h : UsesUp P p reader)
    (hstep : LeftmostStep p reader ts us) : us.countP P < ts.countP P := by
  obtain ⟨i, ⟨-, before, window, after, taken, rfl, -, hmatch, hlen, hnew, rfl⟩, -⟩ := hstep
  obtain ⟨⟨t, ht, hused⟩, hanswers⟩ := h window after taken hmatch hlen hnew
  have hwindow : 0 < window.countP P := List.countP_pos_iff.2 ⟨t, ht, hused⟩
  have hplaced : ∀ u ∈ placed window (reader (taken.captures p.slotCount)), P u = false :=
    placed_keeps (P := fun u => P u = false) (fun u s hu => (hspan u s).trans hu) hanswers
  have hnone : (placed window (reader (taken.captures p.slotCount))).countP P = 0 :=
    List.countP_eq_zero.2 fun u hu => by simp [hplaced u hu]
  rw [List.countP_append, List.countP_append, List.countP_append, List.countP_append, hnone]
  omega

/-- The steps and the terms of the sort that are left are no more than there were such terms. -/
theorem LeftmostSteps.add_countP_le (hspan : ∀ t s, P (t.withSpan s) = P t) (h : UsesUp P p reader)
    {n : Nat} (hsteps : LeftmostSteps p reader n ts us) : n + us.countP P ≤ ts.countP P := by
  induction hsteps with
  | refl ts => omega
  | head first rest ih =>
    have hlt := first.countP_lt hspan h
    omega

/-- Rewriting that uses up terms makes no more steps than there are terms, with whatever limit, and
if the limit is larger then nothing is left to rewrite. -/
theorem UsesUp.ends (hspan : ∀ t s, P (t.withSpan s) = P t) (h : UsesUp P p reader) (ts : List Term) :
    (∀ n us, LeftmostSteps p reader n ts us → n ≤ ts.length) ∧
      ∀ limit, ts.length < limit → IsRewritten p reader (rewriteWithin p reader limit ts).terms := by
  have hle (n : Nat) (us : List Term) (hsteps : LeftmostSteps p reader n ts us) : n ≤ ts.length := by
    have hcount := hsteps.add_countP_le hspan h
    have hlength : ts.countP P ≤ ts.length := List.countP_le_length
    omega
  refine ⟨hle, fun limit hlimit => ?_⟩
  obtain ⟨-, hsteps, hend⟩ := rewriteWithin_leftmost p reader limit ts
  exact hend ((hle _ _ hsteps).trans_lt hlimit)

/-! ## What a window holds -/

/-- A keyword stands for a literal. -/
theorem Segments.Fit.exists_literal {es : Segments} {after : List Term} (h : es.Fit after)
    {k : Keyword} (hk : .keyword k ∈ es.map Prod.fst) : ∃ t ∈ es.window, ∃ l, t.literal? = some l := by
  induction h with
  | nil after => simp at hk
  | capture slot t rest ih =>
    obtain ⟨u, hu, hliteral⟩ := ih (by simpa using hk)
    exact ⟨u, List.mem_append_right _ hu, hliteral⟩
  | keyword k' t l literal word rest ih => exact ⟨t, List.mem_append_left _ (by simp), l, literal⟩
  | run ts others rest ih =>
    obtain ⟨u, hu, hliteral⟩ := ih (by simpa using hk)
    exact ⟨u, List.mem_append_right _ hu, hliteral⟩
  | last ts some => simp at hk

namespace Pattern

variable {window after : List Term} {taken : Taken}

/-- The segments of a window that is matched. -/
theorem exists_splits_window (hruns : p.parts.countP Part.isRun ≤ 1)
    (hmatch : p.matchAt (window ++ after) = .matched taken) (hlen : taken.length = window.length) :
    ∃ es, Splits p.parts (window ++ after) es after ∧ Taken.Adds {} taken es ∧ es.window = window := by
  obtain ⟨es, after', hsplits, hadds⟩ := Part.splits_of_matchAll hruns (fun _ => rfl) hmatch
  have hlength : window.length = es.window.length := by
    rw [← hlen, hadds.length, Nat.zero_add]
  obtain ⟨hwindow, rfl⟩ := List.append_inj hsplits.terms_eq hlength
  exact ⟨es, hsplits, hadds, hwindow.symm⟩

/-- What is captured comes from the window, unless a slot holds nothing. -/
theorem mem_window_of_mem_captures (hruns : p.parts.countP Part.isRun ≤ 1)
    (hmatch : p.matchAt (window ++ after) = .matched taken) (hlen : taken.length = window.length)
    {t : Term} (ht : t ∈ taken.captures p.slotCount) : t ∈ window ∨ t = .nothing := by
  obtain ⟨es, hsplits, hadds, rfl⟩ := exists_splits_window hruns hmatch hlen
  have hholds : taken.Holds (· ∈ es.window) := by
    constructor
    · rw [hadds.slots, List.nil_append]
      intro e he
      obtain ⟨segment, hsegment, hslot⟩ := List.mem_filterMap.1 he
      obtain rfl := Segments.slot?_eq_some.1 hslot
      exact List.mem_flatMap.2 ⟨_, hsegment, List.mem_singleton.2 rfl⟩
    · rw [hadds.run, List.nil_append]
      intro u hu
      obtain ⟨⟨part, segment⟩, hsegment, hrun⟩ := List.mem_flatMap.1 hu
      refine List.mem_flatMap.2 ⟨_, hsegment, ?_⟩
      cases part with
      | run => exact hrun
      | capture slot => exact absurd hrun List.not_mem_nil
      | keyword k => exact absurd hrun List.not_mem_nil
  exact hholds.captures p.slotCount t ht

/-- A slot that is named holds a term of the window. -/
theorem exists_getElem?_captures (hruns : p.parts.countP Part.isRun ≤ 1)
    (hmatch : p.matchAt (window ++ after) = .matched taken) (hlen : taken.length = window.length)
    {slot : Nat} (hslot : .capture slot ∈ p.parts) :
    ∃ t ∈ window, (taken.captures p.slotCount)[slot]? = some t := by
  obtain ⟨es, hsplits, hadds, rfl⟩ := exists_splits_window hruns hmatch hlen
  obtain ⟨slots, hcaptures, hslots, hholds⟩ := captures_of_adds hsplits.fit hadds
  have hlt : slot < slots.length := by
    rw [hslots]
    exact slotCount_le_iff.1 (Nat.le_refl _) slot hslot
  obtain ⟨t, ht⟩ : ∃ t, slots[slot]? = some t := ⟨_, List.getElem?_eq_getElem hlt⟩
  refine ⟨t, ?_, by rw [hcaptures, List.getElem?_append_left hlt, ht]⟩
  cases hholds slot t ht with
  | last before t behind split later =>
    rw [split]
    simp [Segments.window]
  | unnamed never => exact absurd (hsplits.parts_eq ▸ hslot) never

/-- A keyword is met by a literal of the window. -/
theorem exists_literal_mem_window (hruns : p.parts.countP Part.isRun ≤ 1)
    (hmatch : p.matchAt (window ++ after) = .matched taken) (hlen : taken.length = window.length)
    {k : Keyword} (hk : .keyword k ∈ p.parts) : ∃ t ∈ window, ∃ l, t.literal? = some l := by
  obtain ⟨es, ⟨hparts, -, hfit⟩, -, rfl⟩ := exists_splits_window hruns hmatch hlen
  exact hfit.exists_literal (hparts ▸ hk)

end Pattern

end DesktopSearch
