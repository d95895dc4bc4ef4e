import DesktopSearch.Proofs.Pattern.Leftmost

/-!
# Matches that stop

A match stops where the terms end inside the pattern. It has taken all of them then, and it is done with the
first parts of the pattern, among which there is a keyword, but not with all parts (`StopsInside`). What is
looked at while a list is rewritten are the ends of the lists that the steps lead to, so a match that stops
covers the terms from some place on up to the last one (`exists_of_mem_rewriteWithin`).

A span covers the terms that it was made of, as far as they have places of their own
(`Term.covers_spanOf`).
-/

namespace DesktopSearch

variable {p : Pattern} {reader : Reader} {ts us : List Term} {x y : Taken}

/-! ## Where a match stops -/

/-- Having taken all terms, a match is done with the first of the parts, one of which is a keyword unless
there has been one before. -/
structure Part.StopsInside (x y : Taken) (parts : List Part) (ts : List Term) : Prop where
  length : y.length = x.length + ts.length
  parts : ∃ front rest, parts = front ++ rest ∧ rest ≠ [] ∧ y.parts = x.parts + front.length ∧
    (x.sawKeyword = true ∨ ∃ k, .keyword k ∈ front)

namespace Part.StopsInside

variable {part : Part} {parts : List Part} {t : Term}

/-- The terms end in front of a part. -/
theorem of_atEnd (hparts : parts ≠ []) (h : Outcome.atEnd x = .stopped y) : StopsInside x y parts [] := by
  rw [Outcome.atEnd] at h
  split at h
  · rename_i hsaw
    obtain rfl := Outcome.stopped.inj h
    exact ⟨rfl, [], parts, rfl, hparts, rfl, Or.inl hsaw⟩
  · simp at h

/-- One more part in front has taken one more segment. -/
theorem cons {z : Taken} (segment : List Term) (h : StopsInside z y parts ts)
    (hlength : z.length = x.length + segment.length) (hparts : z.parts = x.parts + 1)
    (hkeyword : z.sawKeyword = true → x.sawKeyword = true ∨ ∃ k, part = .keyword k) :
    StopsInside x y (part :: parts) (segment ++ ts) := by
  obtain ⟨hall, front, rest, rfl, hrest, hdone, hsaw⟩ := h
  refine ⟨?_, part :: front, rest, rfl, hrest, ?_, ?_⟩
  · rw [hall, hlength, List.length_append, Nat.add_assoc]
  · rw [hdone, hparts, List.length_cons, Nat.add_assoc, Nat.add_comm 1]
  · rcases hsaw with hsaw | ⟨k, hk⟩
    · exact (hkeyword hsaw).imp_right fun ⟨k, hk⟩ => ⟨k, List.mem_cons.2 (Or.inl hk.symm)⟩
    · exact Or.inr ⟨k, List.mem_cons_of_mem part hk⟩

/-- A run takes all terms that are left. -/
theorem of_run {run : List Term} (h : StopsInside (x.extend run) y parts []) :
    StopsInside x y parts run where
  length := h.length
  parts := h.parts

end Part.StopsInside

theorem Part.stopsInside_of_matchAll {parts : List Part} (h : matchAll x parts ts = .stopped y) :
    StopsInside x y parts ts := by
  fun_induction matchAll x parts ts with
  | case1 x ts => simp at h
  | case2 x _ => exact .of_atEnd (by simp) h
  | case3 x _ => simp at h
  | case4 x part parts _ => exact .of_atEnd (by simp) h
  | case5 x slot parts t ts ih => exact .cons [t] (ih h) rfl rfl Or.inl
  | case6 x k parts t ts _ ih => exact .cons [t] (ih h) rfl rfl fun _ => Or.inr ⟨k, rfl⟩
  | case7 => simp at h
  | case8 => simp at h
  | case9 x part parts t ts taken hrest =>
    have hall : taken = t :: ts := List.takeWhile_eq_self_iff.2 (List.dropWhile_eq_nil_iff.1 hrest)
    exact hall ▸ .of_run (.of_atEnd (by simp) h)
  | case10 x part parts t ts taken _ ih =>
    have hsplit := List.takeWhile_append_dropWhile (p := (!part.accepts ·)) (l := t :: ts)
    exact hsplit ▸ .cons taken (ih h) rfl rfl Or.inl

/-! ## What is looked at -/

/-- A match that stops is looked at from the place where its terms start, up to the end of the list. -/
theorem exists_of_mem_trials {parts : Nat} {span : Span} (h : .stopped parts span ∈ trials p reader ts) :
    ∃ front behind taken, ts = front ++ behind ∧ behind ≠ [] ∧ p.matchAt behind = .stopped taken ∧
      parts = taken.parts ∧ span = Term.spanOf behind := by
  induction ts with
  | nil => simp [trials] at h
  | cons t ts ih =>
    have hhere (h : .stopped parts span ∈ (trialHere? p (t :: ts)).toList) :
        ∃ front behind taken, t :: ts = front ++ behind ∧ behind ≠ [] ∧
          p.matchAt behind = .stopped taken ∧ parts = taken.parts ∧ span = Term.spanOf behind := by
      rw [Option.mem_toList, trialHere?] at h
      split at h
      · simp at h
      · rename_i taken hmatch
        simp only [Option.some.injEq, Trial.stopped.injEq] at h
        obtain ⟨rfl, rfl⟩ := h
        have hlength := (Part.stopsInside_of_matchAll hmatch).length
        refine ⟨[], t :: ts, taken, rfl, List.cons_ne_nil t ts, hmatch, rfl, ?_⟩
        rw [hlength, Nat.zero_add, List.take_length]
      · simp at h
    rw [trials] at h
    split at h
    · exact hhere h
    rcases List.mem_append.1 h with h | h
    · exact hhere h
    · obtain ⟨front, behind, taken, rfl, hbehind⟩ := ih h
      exact ⟨t :: front, behind, taken, rfl, hbehind⟩

/-- The matches that stop on the way stop at the ends of the lists that the steps lead to. -/
theorem exists_of_mem_rewriteWithin {limit parts : Nat} {span : Span}
    (h : .stopped parts span ∈ (rewriteWithin p reader limit ts).trials) :
    ∃ n < limit, ∃ front behind taken, LeftmostSteps p reader n ts (front ++ behind) ∧ behind ≠ [] ∧
      p.matchAt behind = .stopped taken ∧ parts = taken.parts ∧ span = Term.spanOf behind := by
  induction limit generalizing ts with
  | zero => simp [rewriteWithin] at h
  | succ limit ih =>
    have hnow (h : .stopped parts span ∈ trials p reader ts) : ∃ n < limit + 1, ∃ front behind taken,
        LeftmostSteps p reader n ts (front ++ behind) ∧ behind ≠ [] ∧
          p.matchAt behind = .stopped taken ∧ parts = taken.parts ∧ span = Term.spanOf behind := by
      obtain ⟨front, behind, taken, rfl, hbehind⟩ := exists_of_mem_trials h
      exact ⟨0, Nat.succ_pos limit, front, behind, taken, .refl _, hbehind⟩
    rw [rewriteWithin] at h
    split at h
    · exact hnow h
    rename_i hstep
    rcases List.mem_append.1 h with h | h
    · exact hnow h
    · obtain ⟨n, hn, front, behind, taken, hsteps, hbehind⟩ := ih h
      exact ⟨n + 1, Nat.succ_lt_succ hn, front, behind, taken,
        .head (step?_eq_some_iff.1 hstep) hsteps, hbehind⟩

/-! ## What a span covers -/

/-- The stretch `b` lies inside `a`. -/
def Span.Covers (a b : Span) : Prop := a.start ≤ b.start ∧ b.stop ≤ a.stop

namespace Span

variable {a b c : Span}

theorem Covers.trans (h : a.Covers b) (h' : b.Covers c) : a.Covers c :=
  ⟨Nat.le_trans h.1 h'.1, Nat.le_trans h'.2 h.2⟩

theorem union_covers_left (ha : 0 < a.length) : (a.union b).Covers a ∧ 0 < (a.union b).length := by
  unfold union Covers stop isEmpty
  grind

theorem union_covers_right (hb : 0 < b.length) : (a.union b).Covers b ∧ 0 < (a.union b).length := by
  unfold union Covers stop isEmpty
  grind

end Span

/-- Whatever terms are added, what has been covered stays covered. -/
theorem Term.covers_foldl {s : Span} (hs : 0 < s.length) (ts : List Term) :
    (ts.foldl (fun s t => s.union t.span) s).Covers s ∧
      0 < (ts.foldl (fun s t => s.union t.span) s).length :=
  List.foldlRecOn (motive := fun a : Span => a.Covers s ∧ 0 < a.length) ts _
    ⟨⟨Nat.le_refl _, Nat.le_refl _⟩, hs⟩ fun _ ha t _ =>
      have hunion := Span.union_covers_left (b := t.span) ha.2
      ⟨hunion.1.trans ha.1, hunion.2⟩

/-- The span of terms covers each one of them that has a place. -/
theorem Term.covers_spanOf {t : Term} (ht : t ∈ ts) (hspan : 0 < t.span.length) :
    (spanOf ts).Covers t.span ∧ 0 < (spanOf ts).length := by
  obtain ⟨front, behind, rfl⟩ := List.append_of_mem ht
  rw [spanOf, List.foldl_append, List.foldl_cons]
  have hunion := Span.union_covers_right (a := front.foldl (fun s t => s.union t.span) .empty) hspan
  have hrest := covers_foldl hunion.2 behind
  exact ⟨hrest.1.trans hunion.1, hrest.2⟩

end DesktopSearch
