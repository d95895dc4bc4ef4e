import DesktopSearch.Proofs.Term.Span
import DesktopSearch.Term.Operators

/-!
# Parts in normal form

The `canonical` term is the normal form without spans. That of a group depends only on those of its
members (`canonical_group`), and terms that are joined have that of the plain group of the two
(`canonical_join`), although joining merges groups of the same kind and leaves out a side that says
nothing. So a part of a group or one side of a join may be replaced by its normal form.
-/

namespace DesktopSearch.Term

/-! ## Members that repeat -/

theorem any_same_trans {ts : List Term} {t u : Term} (ht : ts.any (·.same t) = true)
    (htu : t.same u = true) : ts.any (·.same u) = true := by
  obtain ⟨w, hw, hwt⟩ := List.any_eq_true.1 ht
  exact List.any_eq_true.2 ⟨w, hw, same_trans hwt htu⟩

theorem pushNew_of_any {seen : List Term} {t : Term} (h : seen.any (·.same t) = true) :
    pushNew seen t = seen := by
  rw [pushNew, if_pos h]

/-- What is pushed is there afterwards, and so is what was there before. -/
theorem any_same_foldl_pushNew {ts seen : List Term} {u : Term}
    (h : seen.any (·.same u) = true ∨ ts.any (·.same u) = true) :
    (ts.foldl pushNew seen).any (·.same u) = true := by
  induction ts generalizing seen with
  | nil => simpa using h
  | cons t ts ih =>
    rw [List.foldl_cons]
    by_cases hseen : seen.any (·.same t) = true
    · rw [pushNew_of_any hseen]
      refine ih (h.elim Or.inl fun h => ?_)
      rw [List.any_cons, Bool.or_eq_true] at h
      exact h.imp (any_same_trans hseen) id
    · rw [pushNew, if_neg hseen]
      refine ih ?_
      rw [List.any_append]
      simp only [List.any_cons, Bool.or_eq_true, List.any_nil, Bool.or_false] at h ⊢
      tauto

/-- Pushing a list without its repetitions is pushing the list. -/
theorem foldl_pushNew_foldl (ts acc seen : List Term) :
    (ts.foldl pushNew acc).foldl pushNew seen = ts.foldl pushNew (acc.foldl pushNew seen) := by
  induction ts generalizing acc with
  | nil => rfl
  | cons t ts ih =>
    rw [List.foldl_cons, List.foldl_cons, ih]
    congr 1
    by_cases hacc : acc.any (·.same t) = true
    · rw [pushNew_of_any hacc, pushNew_of_any (any_same_foldl_pushNew (Or.inr hacc))]
    · rw [pushNew, if_neg hacc, List.foldl_append, List.foldl_cons, List.foldl_nil]

theorem distinct_append (ts us : List Term) :
    distinct (ts ++ us) = distinct (distinct ts ++ distinct us) := by
  have hfirst : (distinct ts).foldl pushNew [] = distinct ts :=
    distinct_eq_self (pairwise_distinct ts)
  rw [distinct, List.foldl_append, distinct, List.foldl_append, hfirst, distinct, distinct,
    foldl_pushNew_foldl, List.foldl_nil]

/-! ## Canonical terms -/

/-- The normal form without spans. -/
def canonical (t : Term) : Term := t.optimize.bare

theorem isNormal_canonical (t : Term) : t.canonical.IsNormal := by
  rw [canonical, bare_optimize]
  exact isNormal_optimize t.bare

/-- Taking the normal form first changes nothing. -/
theorem canonical_optimize (t : Term) : t.optimize.canonical = t.canonical := by
  rw [canonical, (isNormal_optimize t).optimize_eq_self, canonical]

/-- What a term puts into a group of kind `k` in the end. -/
def share (k : Connective) (t : Term) : List Term := spread k t.canonical

theorem canonical_group (s : Span) (k : Connective) (ts : List Term) :
    (group s k ts).canonical = regroup .empty k (distinct (ts.flatMap (share k))) := by
  have hshare : ((ts.map optimize).flatMap (spread k)).map bare = ts.flatMap (share k) := by
    rw [List.map_flatMap, List.flatMap_map]
    exact List.flatMap_congr fun t _ => (spread_bare k _).symm
  rw [canonical, optimize, bare_regroup, optimizeAll_eq_map, ← distinct_bare, hshare]

/-- Groups of the same kind have one canonical term if their members do. -/
theorem canonical_group_congr {r s : Span} {k : Connective} {ts us : List Term}
    (h : ts.map canonical = us.map canonical) :
    (group r k ts).canonical = (group s k us).canonical := by
  have hshare (ts : List Term) : ts.flatMap (share k) = (ts.map canonical).flatMap (spread k) := by
    rw [List.flatMap_map]
    rfl
  rw [canonical_group, canonical_group, hshare, hshare, h]

/-! ## Joined terms -/

/-- The group of what a term puts into it is the term. -/
theorem regroup_share (k : Connective) (t : Term) :
    regroup .empty k (distinct (share k t)) = t.canonical := by
  have hbare : t.canonical.bare = t.canonical := bare_bare _
  rw [share]
  generalize t.canonical = n, isNormal_canonical t = hn at hbare
  cases hn with
  | inl hinvalid =>
    cases n with
    | invalid s => exact hbare
    | _ => simp [isValid] at hinvalid
  | inr hproper =>
    cases hk : n.isGroup k with
    | false => rw [spread_eq_singleton hproper.isValid hk]; rfl
    | true =>
      cases hproper with
      | group s l ts two members flat hd =>
        obtain rfl : l = k := by simpa [isGroup] using hk
        have hspan : s = .empty := by
          rw [bare, group.injEq] at hbare
          exact hbare.1.symm
        rw [spread, if_pos rfl, distinct_eq_self hd, regroup_eq_group _ _ two, hspan]
      | _ => simp [isGroup] at hk

/-- A group puts into a group of its kind what its members put there, each once. -/
theorem share_group (s : Span) (k : Connective) (ts : List Term) :
    share k (group s k ts) = distinct (ts.flatMap (share k)) := by
  have hmembers : ∀ t ∈ distinct (ts.flatMap (share k)), t.Proper ∧ t.isGroup k = false := by
    intro t ht
    obtain ⟨u, -, ht⟩ := List.mem_flatMap.1 (mem_of_mem_distinct ht)
    exact mem_spread (isNormal_canonical u) ht
  rw [share, canonical_group]
  match hts : distinct (ts.flatMap (share k)) with
  | [] => rfl
  | [t] =>
    have ht := hmembers t (by simp [hts])
    exact spread_eq_singleton ht.1.isValid ht.2
  | t :: u :: us => rw [regroup, spread, if_pos rfl] <;> simp

/-- A side of a join puts into the group what the term does. -/
theorem distinct_side (k : Connective) (t : Term) :
    distinct ((t.side k).flatMap (share k)) = distinct (share k t) := by
  have hplain : distinct ([t].flatMap (share k)) = distinct (share k t) := by
    rw [List.flatMap_singleton]
  cases t with
  | group s l ts =>
    rw [side]
    split
    · rename_i h
      rw [h, share_group, distinct_eq_self (pairwise_distinct _)]
    · exact hplain
  | _ => exact hplain

theorem share_of_not_isValid (k : Connective) {t : Term} (h : t.isValid = false) :
    share k t = [] := by
  rw [share, canonical, optimize_of_not_isValid h, spread_of_not_isValid]
  rw [isValid_bare, h]

/-- Joining two terms amounts to putting them into a group. -/
theorem canonical_join (k : Connective) (a b : Term) :
    (join k a b).canonical = (group .empty k [a, b]).canonical := by
  rw [canonical_group, List.flatMap_cons, List.flatMap_singleton, join]
  split
  · rename_i ha
    have ha : a.isValid = false := by simpa using ha
    rw [share_of_not_isValid k ha, List.nil_append, regroup_share]
  split
  · rename_i hb
    have hb : b.isValid = false := by simpa using hb
    rw [share_of_not_isValid k hb, List.append_nil, regroup_share]
  · rw [canonical_group, List.flatMap_append, distinct_append, distinct_side, distinct_side,
      ← distinct_append]

theorem canonical_join_congr {k : Connective} {a b c d : Term} (hab : a.canonical = b.canonical)
    (hcd : c.canonical = d.canonical) : (join k a c).canonical = (join k b d).canonical := by
  rw [canonical_join, canonical_join]
  exact canonical_group_congr (by simp [hab, hcd])

end DesktopSearch.Term
