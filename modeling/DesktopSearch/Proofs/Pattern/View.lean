import DesktopSearch.Proofs.Pattern.Rewriting

/-!
# Rewriting what looks alike

A view of terms is a function that may forget something about them, but not the value of a literal. Patterns
see no more than that of a term, so they match a list of terms and the list of views alike
(`Part.matchAll_map`). If the answers of a reading look alike wherever the terms do that it is given, then
rewriting keeps lists that look alike that way (`rewrite_map_congr`).
-/

namespace DesktopSearch

/-- A way of looking at terms under which literals keep their value. -/
structure IsView (f : Term → Term) : Prop where
  literal? : ∀ t, (f t).literal? = t.literal?
  nothing : f .nothing = .nothing

variable {f : Term → Term}

/-! ## Matching -/

/-- What has been taken, as it looks. -/
def Taken.map (f : Term → Term) (x : Taken) : Taken :=
  { x with slots := x.slots.map fun e => (e.1, f e.2), run := x.run.map f }

/-- An outcome, as it looks. -/
def Outcome.map (f : Term → Term) : Outcome → Outcome
  | matched x => matched (x.map f)
  | stopped x => stopped (x.map f)
  | failed => failed

/-- A slot captures the view of what it captures, and of nothing where it captures nothing. -/
theorem Taken.captures_map (hf : IsView f) (x : Taken) (slotCount : Nat) :
    (x.map f).captures slotCount = (x.captures slotCount).map f := by
  have hslot (i : Nat) : (((x.map f).slots.reverse.find? (·.1 == i)).map Prod.snd).getD .nothing =
      f (((x.slots.reverse.find? (·.1 == i)).map Prod.snd).getD .nothing) := by
    rw [Taken.map, ← List.map_reverse, List.find?_map]
    cases h : x.slots.reverse.find? ((·.1 == i) ∘ fun e => (e.1, f e.2)) with
    | none =>
      rw [show x.slots.reverse.find? (·.1 == i) = none from h]
      exact hf.nothing.symm
    | some e =>
      rw [show x.slots.reverse.find? (·.1 == i) = some e from h]
      rfl
  simp only [Taken.captures, hslot]
  simp [Taken.map]

theorem Taken.capture_map (x : Taken) (slot : Nat) (t : Term) :
    (x.map f).capture slot (f t) = (x.capture slot t).map f := by
  simp [map, capture]

theorem Taken.extend_map (x : Taken) (ts : List Term) :
    (x.map f).extend (ts.map f) = (x.extend ts).map f := by
  simp [map, extend]

theorem Outcome.atEnd_map (x : Taken) : atEnd (x.map f) = (atEnd x).map f := by
  rw [atEnd, atEnd, apply_ite (Outcome.map f)]
  rfl

/-- A keyword looks at the value of a literal, which a view keeps. -/
theorem Part.accepts_map (hf : IsView f) (p : Part) (t : Term) : p.accepts (f t) = p.accepts t := by
  cases p with
  | keyword k => rw [accepts, accepts, hf.literal?]
  | _ => rfl

/-- A run of terms ends at the same keyword. -/
theorem Part.takeWhile_map (hf : IsView f) (p : Part) (ts : List Term) :
    (ts.map f).takeWhile (!p.accepts ·) = (ts.takeWhile (!p.accepts ·)).map f := by
  simp only [List.takeWhile_map, Function.comp_def, accepts_map hf]

theorem Part.dropWhile_map (hf : IsView f) (p : Part) (ts : List Term) :
    (ts.map f).dropWhile (!p.accepts ·) = (ts.dropWhile (!p.accepts ·)).map f := by
  simp only [List.dropWhile_map, Function.comp_def, accepts_map hf]

/-- A pattern matches the views of terms as it matches the terms. -/
theorem Part.matchAll_map (hf : IsView f) (x : Taken) (parts : List Part) (ts : List Term) :
    Part.matchAll (x.map f) parts (ts.map f) = (Part.matchAll x parts ts).map f := by
  fun_induction Part.matchAll x parts ts with
  | case1 x ts => rw [matchAll, Outcome.map]
  | case2 x hrun =>
    have hrun' : (x.map f).run.isEmpty = true := by simpa [Taken.map] using hrun
    rw [List.map_nil, matchAll, if_pos hrun', Outcome.atEnd_map]
  | case3 x hrun =>
    have hrun' : ¬(x.map f).run.isEmpty = true := by simpa [Taken.map] using hrun
    rw [List.map_nil, matchAll, if_neg hrun', Outcome.map]
  | case4 x part parts hpart =>
    rw [List.map_nil, matchAll, Outcome.atEnd_map]
    exact hpart
  | case5 x slot parts t ts ih =>
    rw [List.map_cons, matchAll, Taken.capture_map, ih]
  | case6 x k parts t ts haccepts ih =>
    rw [List.map_cons, matchAll, Part.accepts_map hf, if_pos haccepts]
    exact ih
  | case7 x k parts t ts haccepts =>
    rw [List.map_cons, matchAll, Part.accepts_map hf, if_neg haccepts, Outcome.map]
  | case8 x t ts =>
    rw [List.map_cons, matchAll, ← List.map_cons, Taken.extend_map, Outcome.map]
  | case9 x part parts t ts taken hnil =>
    rw [List.map_cons, matchAll, ← List.map_cons, takeWhile_map hf, dropWhile_map hf, hnil,
      Taken.extend_map, ← Outcome.atEnd_map]
    rfl
  | case10 x part parts t ts taken hsome ih =>
    rw [List.map_cons, matchAll, ← List.map_cons, takeWhile_map hf, dropWhile_map hf, Taken.extend_map]
    split
    · rename_i hnil
      exact absurd (List.map_eq_nil_iff.1 hnil) hsome
    · exact ih

/-! ## Rewriting -/

/-- Where terms look alike, a pattern and a reading rewrite them to terms that look alike, or do not rewrite
either of them. -/
def RewritesAlike (f : Term → Term) (p : Pattern) (reader : Reader) : Prop :=
  ∀ ts us : List Term, ts.map f = us.map f →
    (rewriteHere? p reader ts).map (List.map f) = (rewriteHere? p reader us).map (List.map f)

/-- Terms that look alike are read, and put into windows that look alike, as terms that look alike. -/
def ReadsAlike (f : Term → Term) (reader : Reader) : Prop :=
  ∀ (window window' : List Term) (ts us : List Term), window.map f = window'.map f →
    ts.map f = us.map f → (placed window (reader ts)).map f = (placed window' (reader us)).map f

variable {p : Pattern} {reader : Reader} {ts us : List Term}

theorem placed_eq_nil_iff {window new : List Term} : placed window new = [] ↔ new = [] := by
  unfold placed
  split <;> simp

/-- Where a pattern matches, the windows look alike, and so do the terms that are read from the slots. -/
theorem ReadsAlike.rewritesAlike (hf : IsView f) (hr : ReadsAlike f reader) (p : Pattern) :
    RewritesAlike f p reader := by
  intro ts us h
  have hmatch : (p.matchAt ts).map f = (p.matchAt us).map f := by
    rw [Pattern.matchAt, Pattern.matchAt, ← Part.matchAll_map hf, ← Part.matchAll_map hf, h]
  rw [rewriteHere?, rewriteHere?]
  cases hts : p.matchAt ts <;> cases hus : p.matchAt us <;> rw [hts, hus] at hmatch
  case matched.matched x y =>
    have hxy : x.map f = y.map f := Outcome.matched.inj hmatch
    have hlength : (x.map f).length = (y.map f).length := congrArg Taken.length hxy
    change x.length = y.length at hlength
    have hcaptures : (x.captures p.slotCount).map f = (y.captures p.slotCount).map f := by
      rw [← Taken.captures_map hf, hxy, Taken.captures_map hf]
    have hnew := hr (ts.take x.length) (us.take x.length) _ _ (by rw [List.map_take, h, List.map_take])
      hcaptures
    have hempty : reader (x.captures p.slotCount) = [] ↔ reader (y.captures p.slotCount) = [] := by
      rw [← placed_eq_nil_iff, ← List.map_eq_nil_iff, hnew, List.map_eq_nil_iff, placed_eq_nil_iff]
    dsimp only
    rw [← hlength]
    by_cases hnone : reader (x.captures p.slotCount) = []
    · simp [hnone, hempty.1 hnone]
    · have hnone' : reader (y.captures p.slotCount) ≠ [] := fun h => hnone (hempty.2 h)
      simp only [List.isEmpty_iff, hnone, hnone', if_false, Option.map_some, List.map_append, hnew,
        List.map_drop, h]
  all_goals first | rfl | simp [Outcome.map] at hmatch

/-- The leftmost place that is rewritten is the same. -/
theorem step?_map_congr (hp : RewritesAlike f p reader) (h : ts.map f = us.map f) :
    (step? p reader ts).map (List.map f) = (step? p reader us).map (List.map f) := by
  induction ts generalizing us with
  | nil =>
    obtain rfl := List.map_eq_nil_iff.1 h.symm
    rfl
  | cons t ts ih =>
    obtain ⟨u, us, rfl⟩ : ∃ u vs, us = u :: vs := by
      cases us with
      | nil => simp at h
      | cons u us => exact ⟨u, us, rfl⟩
    have hhere := hp (t :: ts) (u :: us) h
    obtain ⟨ht, hts⟩ := List.cons.inj h
    rw [step?, step?]
    cases hleft : rewriteHere? p reader (t :: ts) <;>
      cases hright : rewriteHere? p reader (u :: us) <;> rw [hleft, hright] at hhere
    · have hcons (t : Term) : List.map f ∘ (t :: ·) = (f t :: ·) ∘ List.map f := rfl
      dsimp only
      rw [Option.map_map, Option.map_map, hcons, hcons, ← Option.map_map, ← Option.map_map, ih hts, ht]
    · simp at hhere
    · simp at hhere
    · exact hhere

/-- After any number of steps the lists look alike. -/
theorem rewriteWithin_map_congr (hp : RewritesAlike f p reader) (limit : Nat) (h : ts.map f = us.map f) :
    (rewriteWithin p reader limit ts).terms.map f = (rewriteWithin p reader limit us).terms.map f := by
  induction limit generalizing ts us with
  | zero => exact h
  | succ limit ih =>
    have hstep := step?_map_congr hp h
    rw [rewriteWithin, rewriteWithin]
    cases hts : step? p reader ts <;> cases hus : step? p reader us <;> rw [hts, hus] at hstep
    · exact h
    · simp at hstep
    · simp at hstep
    · exact ih (Option.some.inj hstep)

/-- Rewriting makes lists that look alike of lists that look alike. -/
theorem rewrite_map_congr (hp : RewritesAlike f p reader) (h : ts.map f = us.map f) :
    (rewrite p reader ts).terms.map f = (rewrite p reader us).terms.map f :=
  rewriteWithin_map_congr hp maxRewrites h

end DesktopSearch
