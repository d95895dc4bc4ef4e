import DesktopSearch.Proofs.Term.Markup
import DesktopSearch.Proofs.Term.NormalForm
import DesktopSearch.Term.Operators

/-!
# What is gathered from the parts of a term

The literals of a term and its comparisons are gathered from its parts (`Gathered`) : a group has those of
its members, and a negation, an optional part and the value of a comparison hand theirs on. So nothing is
gathered from a normal form that the term does not have (`Gathered.of_optimize`), or from joined terms
that neither of the two has (`Gathered.of_join`).
-/

namespace DesktopSearch.Term

/-- A term has the property if one of its parts gives it to the term. Type restrictions, and terms that say
nothing, do not. -/
structure Gathered (P : Term → Prop) : Prop where
  invalid : ∀ s, ¬ P (invalid s)
  types : ∀ s us, ¬ P (types s us)
  negation : ∀ s t, P (negation s t) ↔ P t
  optional : ∀ s t, P (optional s t) ↔ P t
  group : ∀ s k ts, P (group s k ts) ↔ ∃ t ∈ ts, P t
  comparison : ∀ r s c {t u}, (P t → P u) → P (comparison r c t) → P (comparison s c u)

/-- The literals of a term are gathered from its members. -/
theorem gathered_literal (l : Literal) : Gathered (l ∈ ·.literals) where
  invalid _ := by simp [literals]
  types _ _ := by simp [literals]
  negation _ _ := Iff.rfl
  optional _ _ := Iff.rfl
  group _ _ _ := mem_literalsOfAll
  comparison _ _ _ _ _ h := h

/-- So are its comparisons. -/
theorem gathered_comparison (c : Comparison) : Gathered (c ∈ ·.comparisons) where
  invalid _ := by simp [comparisons]
  types _ _ := by simp [comparisons]
  negation _ _ := Iff.rfl
  optional _ _ := Iff.rfl
  group _ _ _ := mem_comparisonsOfAll
  comparison _ _ _ _ _ h hc := List.mem_cons.2 ((List.mem_cons.1 hc).imp_right h)

namespace Gathered

variable {P : Term → Prop} (h : Gathered P) {t : Term}

include h

/-- What a group takes over from a term is in the term. -/
theorem of_spread {k : Connective} {u : Term} (hu : u ∈ spread k t) (hP : P u) : P t := by
  cases t with
  | invalid s => simp [spread] at hu
  | group s l ts =>
    rw [spread] at hu
    split at hu
    · exact (h.group s l ts).2 ⟨u, hu, hP⟩
    · rwa [List.mem_singleton.1 hu] at hP
  | _ => rwa [List.mem_singleton.1 hu] at hP

/-- What is in a group is in one of its members. -/
theorem of_regroup {s : Span} {k : Connective} {ts : List Term} (hP : P (regroup s k ts)) :
    ∃ t ∈ ts, P t := by
  match ts with
  | [] => exact absurd hP (h.invalid _)
  | [t] => exact ⟨t, List.mem_singleton_self t, hP⟩
  | t :: u :: ts => exact (h.group s k _).1 hP

theorem of_negateNormal {s : Span} (hP : P (negateNormal s t)) : P t := by
  cases t with
  | invalid => exact absurd hP (h.invalid _)
  | negation r u => exact (h.negation r u).2 hP
  | _ => exact (h.negation s _).1 hP

theorem of_optionalNormal {s : Span} (hP : P (optionalNormal s t)) : P t := by
  cases t with
  | invalid => exact absurd hP (h.invalid _)
  | optional r u => exact hP
  | _ => exact (h.optional s _).1 hP

/-- The normal form has nothing that the term does not have. -/
theorem of_optimize (hP : P t.optimize) : P t := by
  induction t with
  | comparison s c v ih => exact h.comparison s s c ih hP
  | negation s t ih => exact (h.negation s t).2 (ih (h.of_negateNormal hP))
  | optional s t ih => exact (h.optional s t).2 (ih (h.of_optionalNormal hP))
  | group s k ts ih =>
    rw [optimize, optimizeAll_eq_map] at hP
    obtain ⟨u, hu, hP⟩ := h.of_regroup hP
    obtain ⟨v, hv, hu⟩ := List.mem_flatMap.1 (mem_of_mem_distinct hu)
    obtain ⟨t, ht, rfl⟩ := List.mem_map.1 hv
    exact (h.group s k ts).2 ⟨t, ht, ih t ht (h.of_spread hu hP)⟩
  | _ => exact hP

theorem of_side {k : Connective} {u : Term} (hu : u ∈ t.side k) (hP : P u) : P t := by
  cases t with
  | group s l ts =>
    rw [side] at hu
    split at hu
    · exact (h.group s l ts).2 ⟨u, hu, hP⟩
    · rwa [List.mem_singleton.1 hu] at hP
  | _ => rwa [List.mem_singleton.1 hu] at hP

/-- Joined terms have nothing that neither of the two has. -/
theorem of_join {k : Connective} {a b : Term} (hP : P (join k a b)) : P a ∨ P b := by
  rw [join] at hP
  split at hP
  · exact Or.inr hP
  split at hP
  · exact Or.inl hP
  · obtain ⟨u, hu, hP⟩ := (h.group _ k _).1 hP
    exact (List.mem_append.1 hu).imp (fun hu => h.of_side hu hP) fun hu => h.of_side hu hP

end Gathered

end DesktopSearch.Term
