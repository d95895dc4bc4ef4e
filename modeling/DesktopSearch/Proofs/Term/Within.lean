import DesktopSearch.Fusion.Basic
import DesktopSearch.Pattern.Matching
import DesktopSearch.Proofs.Term.Basic

/-!
# Terms inside the input

A term lies within the first `n` places of the input if the spans of all its parts end there (`Within`). The
span that covers two others ends where one of them does, so terms stay inside the input when they take over
the span of a window, and when they are joined or negated.
-/

namespace DesktopSearch

/-! ## Spans -/

/-- The span that covers two others reaches no further than they do. -/
theorem Span.stop_union_le {a b : Span} {n : Nat} (ha : a.stop ≤ n) (hb : b.stop ≤ n) :
    (a.union b).stop ≤ n := by
  unfold union
  split
  · exact hb
  split
  · exact ha
  · dsimp only [stop] at ha hb ⊢
    omega

namespace Term

variable {n : Nat} {t u : Term} {ts : List Term}

/-- The span that covers a list of terms ends inside the input if all of theirs do. -/
theorem stop_spanOf_le (h : ∀ t ∈ ts, t.span.stop ≤ n) : (spanOf ts).stop ≤ n :=
  List.foldlRecOn (motive := fun s : Span => s.stop ≤ n) ts _ (Nat.zero_le n) fun _ hs t ht =>
    Span.stop_union_le hs (h t ht)

/-! ## Terms -/

/-- The spans of all parts of the term end within the first `n` places. -/
def Within (n : Nat) (t : Term) : Prop := ∀ u, t.Part u → u.span.stop ≤ n

/-- A term lies inside the input if its own span does and all terms directly inside it do. -/
theorem within_iff : t.Within n ↔ t.span.stop ≤ n ∧ ∀ u ∈ t.children, u.Within n := by
  constructor
  · exact fun h => ⟨h t .self, fun u hu w hw => h w (.of_child hu hw)⟩
  · rintro ⟨hspan, hchildren⟩ u hu
    rcases hu.eq_self_or with rfl | ⟨w, hw, hpart⟩
    · exact hspan
    · exact hchildren w hw u hpart

theorem children_withSpan (t : Term) (s : Span) : (t.withSpan s).children = t.children := by
  cases t <;> rfl

theorem span_withSpan (t : Term) (s : Span) : (t.withSpan s).span = s := by
  cases t <;> rfl

namespace Within

theorem stop_le (h : t.Within n) : t.span.stop ≤ n := h t .self

/-- What is directly inside a term lies where the term does. -/
theorem child (h : t.Within n) (hu : u ∈ t.children) : u.Within n := (within_iff.1 h).2 u hu

/-- A term may take over any span inside the input. -/
theorem withSpan (h : t.Within n) {s : Span} (hs : s.stop ≤ n) : (t.withSpan s).Within n := by
  rw [within_iff, children_withSpan, span_withSpan]
  exact ⟨hs, fun u hu => h.child hu⟩

/-- Of a term without others inside it only its own span counts. -/
theorem of_childless (hs : t.span.stop ≤ n) (h : t.children = []) : t.Within n :=
  within_iff.2 ⟨hs, by simp [h]⟩

theorem nothing : Term.nothing.Within n := of_childless (Nat.zero_le n) rfl

theorem comparison {s : Span} (hs : s.stop ≤ n) (c : Comparison) (h : t.Within n) :
    (Term.comparison s c t).Within n :=
  within_iff.2 ⟨hs, by simpa using h⟩

theorem negation {s : Span} (hs : s.stop ≤ n) (h : t.Within n) : (Term.negation s t).Within n :=
  within_iff.2 ⟨hs, by simpa using h⟩

/-- Terms inside the input may be put into a group that ends inside it. -/
theorem group {s : Span} (hs : s.stop ≤ n) (k : Connective) (h : ∀ t ∈ ts, t.Within n) :
    (Term.group s k ts).Within n :=
  within_iff.2 ⟨hs, h⟩

/-- What is put together from terms inside the input lies inside it. -/
theorem append (ht : t.Within n) (hu : u.Within n) (k : Connective) : (t.append k u).Within n := by
  have hspan := Span.stop_union_le ht.stop_le hu.stop_le
  have hpair := group hspan k (List.forall_mem_cons.2 ⟨ht, List.forall_mem_singleton.2 hu⟩)
  rw [Term.append]
  split
  · exact ht
  split
  · exact hu
  dsimp only
  split
  · split
    · exact group hspan k (List.forall_mem_append.2 ⟨fun v hv => ht.child hv, List.forall_mem_singleton.2 hu⟩)
    · exact hpair
  · exact hpair

/-- What a term is negated to lies inside the input, and so does the negation when it is placed there. -/
theorem negate (h : t.Within n) {s : Span} (hs : s.stop ≤ n) : ((~~~ t).withSpan s).Within n := by
  refine withSpan ?_ hs
  change t.negate.Within n
  rw [Term.negate]
  split
  · exact h.negation h.stop_le
  · exact nothing

end Within

end Term

end DesktopSearch
