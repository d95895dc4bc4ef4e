import DesktopSearch.Proofs.Sparql.Preparation
import DesktopSearch.Proofs.Term.Span
import DesktopSearch.Sparql.Lowering

/-!
# Spans and patterns

Spans say where a term was read, and nothing of that is left in a query : preparing a term for lowering
and leaving out its spans may be done in either order (`bare_refine`, `bare_anchor`), and a term is
lowered to the patterns of the bare term (`lower_bare`).
-/

namespace DesktopSearch.Sparql

open Term

variable (o : Ontology)

/-! ## Preparation -/

@[simp] theorem isNamed_bare (t : Term) : isNamed t.bare = isNamed t := by
  cases t <;> rfl

@[simp] theorem isAnchor_bare (t : Term) : isAnchor t.bare = isAnchor t := by
  cases t <;> rfl

theorem bare_alternatives (ts : List Term) :
    (alternatives ts).bare = alternatives (ts.map bare) := by
  match ts with
  | [] | [_] => rfl
  | t :: u :: ts =>
    change (group .empty .or (t :: u :: ts)).bare = group .empty .or ((t :: u :: ts).map bare)
    rw [bare, bareAll_eq_map]

/-- The chosen members of bare members are the chosen members without their spans. -/
theorem filter_map_bare {p : Term → Bool} (h : ∀ t : Term, p t.bare = p t) (ts : List Term) :
    (ts.map bare).filter p = (ts.filter p).map bare := by
  rw [List.filter_map]
  congr 2
  exact funext h

/-- Merging types does not look at spans. -/
theorem bare_refine (t : Term) : (refine o t).bare = refine o t.bare := by
  induction t with
  | comparison s c v ih => rw [refine, bare, ih, bare, refine]
  | negation s t ih => rw [refine, bare, ih, bare, refine]
  | optional s t ih => rw [refine, bare, ih, bare, refine]
  | group s k ts ih =>
    have hchosen {p : Term → Bool} (h : ∀ t : Term, p t.bare = p t) :
        ((ts.filter p).map (refine o)).map bare = ((ts.map bare).filter p).map (refine o) := by
      rw [filter_map_bare h, List.map_map, List.map_map]
      exact List.map_congr_left fun t ht => ih t (List.mem_of_mem_filter ht)
    cases k with
    | and =>
      rw [refine, allOf, bare, bareAll_eq_map, List.map_append, refineWhere_eq, refineWhere_eq,
        hchosen isNamed_bare, hchosen (p := (!isNamed ·)) (by simp), bare, bareAll_eq_map, refine,
        allOf, refineWhere_eq, refineWhere_eq]
    | or =>
      have htypes : (ts.map bare).filterMap types? = ts.filterMap types? := by
        rw [List.filterMap_map]
        exact congrArg (List.filterMap · ts) (funext types?_bare)
      have hothers : (refineOthers o ts).map bare = refineOthers o (ts.map bare) := by
        rw [refineOthers_eq, hchosen (by simp), refineOthers_eq]
      simp only [refine, bare, bareAll_eq_map, bare_alternatives, List.map_append, hothers, htypes]
      congr 2
      split <;> rfl
  | _ => rfl

theorem bare_typeAnchor : typeAnchor.bare = typeAnchor := rfl

/-- Anchoring negations does not look at spans. -/
theorem bare_anchor (t : Term) : (anchor t).bare = anchor t.bare := by
  induction t with
  | comparison s c v ih => rw [anchor, bare, ih, bare, anchor]
  | negation s t ih =>
    rw [bare, anchor, allOf, bare, bareAll_eq_map, List.map_cons, List.map_singleton, bare,
      bare_typeAnchor, anchor, allOf]
  | optional s t ih => rw [anchor, bare, ih, bare, anchor]
  | group s k ts ih =>
    cases k with
    | and =>
      have hmembers : (anchorMembers ts).map bare = anchorMembers (ts.map bare) := by
        rw [anchorMembers_eq, anchorMembers_eq, List.map_map, List.map_map]
        refine List.map_congr_left fun t ht => ?_
        simp only [Function.comp_apply, isNegation_bare]
        split
        · rfl
        · exact ih t ht
      have hany {p : Term → Bool} (h : ∀ t : Term, p t.bare = p t) :
          (ts.map bare).any p = ts.any p := by
        rw [List.any_map]
        exact congrArg (List.any ts) (funext h)
      simp only [anchor, allOf, bare, bareAll_eq_map, List.map_append, hmembers,
        hany isNegation_bare, hany isAnchor_bare]
      congr 2
      split <;> rfl
    | or =>
      have hmembers : (anchorAll ts).map bare = anchorAll (ts.map bare) := by
        rw [anchorAll_eq, anchorAll_eq, List.map_map, List.map_map]
        exact List.map_congr_left fun t ht => ih t ht
      rw [anchor, oneOf, bare, bareAll_eq_map, hmembers, bare, bareAll_eq_map, anchor, oneOf]
  | _ => rfl

/-! ## Lowering -/

theorem lowerComparison_bare (x : Setting) (c : Comparison) (value : Term)
    (nested : Variable → Lower (List Pattern)) :
    lowerComparison x c value.bare nested = lowerComparison x c value nested := by
  cases value <;> rfl

/-- A term is lowered as it is without its spans. -/
theorem lower_bare (x : Setting) (t : Term) : lower x t.bare = lower x t := by
  induction t with
  | comparison s c v ih =>
    funext subject
    rw [bare, lower, lower, lowerComparison_bare, ih]
  | negation s t ih =>
    funext subject
    rw [bare, lower, lower, ih]
  | optional s t ih =>
    funext subject
    rw [bare, lower, lower, ih]
  | group s k ts ih =>
    funext subject
    have hall : lowerAll x (ts.map bare) subject = lowerAll x ts subject ∧
        lowerBranches x (ts.map bare) subject = lowerBranches x ts subject := by
      clear s k
      induction ts with
      | nil => exact ⟨rfl, rfl⟩
      | cons t ts ihs =>
        obtain ⟨hmembers, hbranches⟩ := ihs fun u hu => ih u (by simp [hu])
        rw [List.map_cons, lowerAll, lowerAll, lowerBranches, lowerBranches, ih t (by simp),
          hmembers, hbranches]
        exact ⟨rfl, rfl⟩
    rw [bare, bareAll_eq_map]
    cases k with
    | and => rw [lower, lower, hall.1]
    | or => rw [lower, lower, hall.2]
  | _ => rfl

end DesktopSearch.Sparql
