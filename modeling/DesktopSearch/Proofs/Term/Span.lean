import DesktopSearch.Proofs.Term.NormalForm

/-!
# Terms without spans

A term is `bare` when all its spans are empty. Two terms are the `same` exactly if their bare terms are equal
(`same_iff_bare_eq`), so whatever is a function of the bare term does not look at spans. Taking the
normal form is such a function (`bare_optimize`).
-/

namespace DesktopSearch.Term

/-! ## Leaving out the spans -/

mutual

/-- The term without its spans. -/
def bare : Term → Term
  | invalid _ => invalid .empty
  | literal _ l => literal .empty l
  | resource _ u => resource .empty u
  | types _ us => types .empty us
  | comparison _ c v => comparison .empty c v.bare
  | negation _ t => negation .empty t.bare
  | optional _ t => optional .empty t.bare
  | group _ k ts => group .empty k (bareAll ts)

/-- The terms of a list without their spans. -/
def bareAll : List Term → List Term
  | [] => []
  | t :: ts => t.bare :: bareAll ts

end

/-- The terms of a list lose their spans one by one. -/
theorem bareAll_eq_map (ts : List Term) : bareAll ts = ts.map bare := by
  induction ts with
  | nil => rfl
  | cons t ts ih => rw [bareAll, ih, List.map_cons]

@[simp] theorem isValid_bare (t : Term) : t.bare.isValid = t.isValid := by
  cases t <;> rfl

@[simp] theorem isNegation_bare (t : Term) : t.bare.isNegation = t.isNegation := by
  cases t <;> rfl

@[simp] theorem types?_bare (t : Term) : t.bare.types? = t.types? := by
  cases t <;> rfl

@[simp] theorem resource?_bare (t : Term) : t.bare.resource? = t.resource? := by
  cases t <;> rfl

@[simp] theorem literal?_bare (t : Term) : t.bare.literal? = t.literal? := by
  cases t <;> rfl

/-- Whether a term is a word does not depend on its span. -/
@[simp] theorem string?_bare (t : Term) : t.bare.string? = t.string? := by
  rw [string?, literal?_bare, string?]

@[simp] theorem integer?_bare (t : Term) : t.bare.integer? = t.integer? := by
  rw [integer?, literal?_bare, integer?]

@[simp] theorem moment?_bare (t : Term) : t.bare.moment? = t.moment? := by
  rw [moment?, literal?_bare, moment?]

/-- The span of a bare term is the empty one. -/
@[simp] theorem span_bare (t : Term) : t.bare.span = .empty := by
  cases t <;> rfl

/-- Placing a term elsewhere changes nothing about its bare term. -/
theorem bare_withSpan (t : Term) (s : Span) : (t.withSpan s).bare = t.bare := by
  cases t <;> rfl

theorem withSpan_bare (t : Term) : t.bare.withSpan .empty = t.bare := by
  cases t <;> rfl

/-- A bare term is bare. -/
theorem bare_bare (t : Term) : t.bare.bare = t.bare := by
  induction t with
  | comparison s c v ih => rw [bare, bare, ih]
  | negation s t ih => rw [bare, bare, ih]
  | optional s t ih => rw [bare, bare, ih]
  | group s k ts ih =>
    have hts : (ts.map bare).map bare = ts.map bare := by
      rw [List.map_map]
      exact List.map_congr_left ih
    rw [bare, bareAll_eq_map, bare, bareAll_eq_map, hts]
  | _ => rfl

/-! ## Equality up to spans -/

/-- Terms are the same if they are equal without their spans. -/
theorem same_iff_bare_eq {a b : Term} : a.same b = true ↔ a.bare = b.bare := by
  induction a generalizing b with
  | comparison s c v ih => cases b <;> simp [same, bare, ih]
  | negation s t ih => cases b <;> simp [same, bare, ih]
  | optional s t ih => cases b <;> simp [same, bare, ih]
  | group s k ts ih =>
    cases b with
    | group r l us =>
      have hmembers : List.Forall₂ (fun a b => a.same b = true) ts us ↔ ts.map bare = us.map bare := by
        clear s r k l
        induction ts generalizing us with
        | nil => cases us <;> simp
        | cons t ts ihs =>
          cases us with
          | nil => simp
          | cons u us =>
            rw [List.forall₂_cons, ih t (by simp), ihs (fun v hv => ih v (by simp [hv])) us,
              List.map_cons, List.map_cons, List.cons.injEq]
      simp [same, bare, sameMembers_iff, hmembers, bareAll_eq_map]
    | _ => simp [same, bare]
  | _ => cases b <;> simp [same, bare]

theorem same_bare (a b : Term) : a.bare.same b.bare = a.same b := by
  rw [Bool.eq_iff_iff, same_iff_bare_eq, same_iff_bare_eq, bare_bare, bare_bare]

/-- Being the same is transitive, as equality of bare terms is. -/
theorem same_trans {a b c : Term} (hab : a.same b = true) (hbc : b.same c = true) :
    a.same c = true :=
  same_iff_bare_eq.2 ((same_iff_bare_eq.1 hab).trans (same_iff_bare_eq.1 hbc))

/-! ## Normal form -/

/-- The members that a term contributes to a group of its kind are told by its shape. -/
theorem spread_bare (k : Connective) (t : Term) : spread k t.bare = (spread k t).map bare := by
  cases t with
  | group s l ms =>
    rw [bare, spread, spread]
    split
    · rw [bareAll_eq_map]
    · rw [List.map_singleton, bare]
  | _ => rfl

/-- A term is new among bare terms if it was new among the terms themselves. -/
theorem pushNew_bare (seen : List Term) (t : Term) :
    pushNew (seen.map bare) t.bare = (pushNew seen t).map bare := by
  have hany : (seen.map bare).any (·.same t.bare) = seen.any (·.same t) := by
    simp only [List.any_map, Function.comp_def, same_bare]
  rw [pushNew, pushNew, hany]
  split
  · rfl
  · rw [List.map_append, List.map_singleton]

/-- Leaving out repetitions compares terms up to spans, so it may be done after the spans are gone. -/
theorem distinct_bare (ts : List Term) : distinct (ts.map bare) = (distinct ts).map bare := by
  have h : ∀ seen, (ts.map bare).foldl pushNew (seen.map bare) = (ts.foldl pushNew seen).map bare := by
    induction ts with
    | nil => exact fun _ => rfl
    | cons t ts ih =>
      intro seen
      rw [List.map_cons, List.foldl_cons, pushNew_bare, ih, List.foldl_cons]
  exact h []

/-- Without spans, a group is put together from the bare members. -/
theorem bare_regroup (s : Span) (k : Connective) (ts : List Term) :
    (regroup s k ts).bare = regroup .empty k (ts.map bare) := by
  match ts with
  | [] | [_] => rfl
  | t :: u :: ts =>
    change (group s k (t :: u :: ts)).bare = group .empty k ((t :: u :: ts).map bare)
    rw [bare, bareAll_eq_map]

/-- Two negations cancel out wherever they stand. -/
theorem bare_negateNormal (s : Span) (t : Term) :
    (negateNormal s t).bare = negateNormal .empty t.bare := by
  cases t <;> rfl

theorem bare_optionalNormal (s : Span) (t : Term) :
    (optionalNormal s t).bare = optionalNormal .empty t.bare := by
  cases t <;> rfl

/-- The normal form without spans is that of the term without spans. -/
theorem bare_optimize (t : Term) : t.optimize.bare = t.bare.optimize := by
  induction t with
  | comparison s c v ih => rw [optimize, bare, ih, bare, optimize]
  | negation s t ih => rw [optimize, bare_negateNormal, ih, bare, optimize]
  | optional s t ih => rw [optimize, bare_optionalNormal, ih, bare, optimize]
  | group s k ts ih =>
    have hspread : ((ts.map optimize).flatMap (spread k)).map bare =
        ((ts.map bare).map optimize).flatMap (spread k) := by
      rw [List.map_flatMap, List.flatMap_map, List.map_map, List.flatMap_map]
      refine List.flatMap_congr fun t ht => ?_
      rw [Function.comp_apply, ← ih t ht, spread_bare]
    rw [optimize, bare_regroup, optimizeAll_eq_map, ← distinct_bare, hspread, bare, optimize,
      optimizeAll_eq_map, bareAll_eq_map]
  | _ => rfl

end DesktopSearch.Term
