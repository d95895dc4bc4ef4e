import DesktopSearch.Proofs.Term.Congruence

/-!
# Laws of the operators

Joining terms is associative down to the spans (`join_assoc`), with the term that says nothing as its neutral
element, because spans are united in the same way (`Span.union_assoc`). The normal form respects this : a
join, the plain group of its two sides and the join of their normal forms have the same one, and so do a
group and the group into which the members of one of its members have been put, wherever they stand
(`canonical_group_splice`). `operators_lawful` states this of `&&&` and `|||`, and what remains of `~~~`.
-/

namespace DesktopSearch

/-! ## Spans -/

namespace Span

variable {a b : Span}

theorem union_of_isEmpty_left (h : a.isEmpty = true) (b : Span) : a.union b = b := by
  rw [union, if_pos h]

theorem union_of_isEmpty_right (a : Span) (h : b.isEmpty = true) (ha : a.isEmpty = false) :
    a.union b = a := by
  rw [union, if_neg (by simp [ha]), if_pos h]

/-- Spans that cover something are united to what lies between their ends. -/
theorem union_eq (ha : a.isEmpty = false) (hb : b.isEmpty = false) :
    a.union b = ⟨min a.start b.start, max a.stop b.stop - min a.start b.start⟩ := by
  rw [union, if_neg (by simp [ha]), if_neg (by simp [hb])]

theorem isEmpty_union (ha : a.isEmpty = false) (hb : b.isEmpty = false) :
    (a.union b).isEmpty = false := by
  rw [isEmpty, beq_eq_false_iff_ne] at ha
  rw [union_eq (by simpa [isEmpty] using ha) hb, isEmpty, beq_eq_false_iff_ne, stop, stop]
  dsimp only
  omega

theorem stop_union (ha : a.isEmpty = false) (hb : b.isEmpty = false) :
    (a.union b).stop = max a.stop b.stop := by
  rw [union_eq ha hb, stop, stop, stop]
  dsimp only
  omega

theorem union_assoc (a b c : Span) : (a.union b).union c = a.union (b.union c) := by
  cases ha : a.isEmpty with
  | true => rw [union_of_isEmpty_left ha, union_of_isEmpty_left ha]
  | false =>
    cases hb : b.isEmpty with
    | true => rw [union_of_isEmpty_right a hb ha, union_of_isEmpty_left hb]
    | false =>
      have hab := isEmpty_union ha hb
      cases hc : c.isEmpty with
      | true => rw [union_of_isEmpty_right _ hc hab, union_of_isEmpty_right b hc hb]
      | false =>
        have hbc := isEmpty_union hb hc
        rw [union_eq hab hc, union_eq ha hbc, stop_union ha hb, stop_union hb hc, union_eq ha hb,
          union_eq hb hc]
        rw [Nat.min_assoc, Nat.max_assoc]

end Span

namespace Term

/-! ## Joining -/

variable {k : Connective} {a b : Term}

theorem join_of_not_isValid_left (h : a.isValid = false) (b : Term) : join k a b = b := by
  rw [join, h]
  rfl

theorem join_of_not_isValid_right (h : b.isValid = false) (ha : a.isValid = true) :
    join k a b = a := by
  rw [join, ha, h]
  rfl

theorem join_of_isValid (ha : a.isValid = true) (hb : b.isValid = true) :
    join k a b = group (a.span.union b.span) k (a.side k ++ b.side k) := by
  rw [join, ha, hb]
  rfl

/-- A term that says nothing is neutral, but a span that it has on the left is lost. -/
theorem join_nothing_right (k : Connective) (a : Term) :
    join k a nothing = if a.isValid then a else nothing := by
  cases h : a.isValid with
  | true => rw [join_of_not_isValid_right rfl h, if_pos rfl]
  | false => rw [join_of_not_isValid_left h, if_neg Bool.false_ne_true]

theorem side_group_self (s : Span) (k : Connective) (ts : List Term) : (group s k ts).side k = ts := by
  rw [side, if_pos rfl]

/-- Joining is associative, spans included. -/
theorem join_assoc (k : Connective) (a b c : Term) : join k (join k a b) c = join k a (join k b c) := by
  cases ha : a.isValid with
  | false => rw [join_of_not_isValid_left ha, join_of_not_isValid_left ha]
  | true =>
    cases hb : b.isValid with
    | false => rw [join_of_not_isValid_right hb ha, join_of_not_isValid_left hb]
    | true =>
      cases hc : c.isValid with
      | false =>
        have hab : (join k a b).isValid = true := by rw [join_of_isValid ha hb]; rfl
        rw [join_of_not_isValid_right hc hb, join_of_not_isValid_right hc hab]
      | true =>
        rw [join_of_isValid ha hb, join_of_isValid hb hc, join_of_isValid rfl hc,
          join_of_isValid ha rfl, side_group_self, side_group_self, List.append_assoc, span, span,
          Span.union_assoc]

/-! ## Normal forms -/

/-- Two terms have the same normal form if they have one canonical term. -/
theorem same_optimize_iff : a.optimize.same b.optimize = true ↔ a.canonical = b.canonical :=
  same_iff_bare_eq

theorem canonical_join_optimize (k : Connective) (a b : Term) :
    (join k a.optimize b.optimize).canonical = (group .empty k [a, b]).canonical := by
  rw [canonical_join]
  exact canonical_group_congr (by simp only [List.map_cons, canonical_optimize, List.map_nil])

/-- The members of a group may be put into a group of its kind that it is a member of. -/
theorem canonical_group_splice (r s q : Span) (k : Connective) (xs ys zs : List Term) :
    (group r k (xs ++ [group s k ys] ++ zs)).canonical = (group q k (xs ++ ys ++ zs)).canonical := by
  rw [canonical_group, canonical_group]
  simp only [List.flatMap_append, List.flatMap_singleton, share_group]
  -- The members of the inner group come without repetitions, which the outer one leaves out anyway.
  have hidem (ts : List Term) : distinct (distinct ts) = distinct ts :=
    distinct_eq_self (pairwise_distinct ts)
  rw [distinct_append, distinct_append (_ ++ _), distinct_append (xs.flatMap _),
    distinct_append (xs.flatMap _) (ys.flatMap _), hidem]

/-- Negating a term that says nothing leaves nothing, as its negation does in normal form. -/
theorem canonical_negate (s : Span) (a : Term) : (negate a).canonical = (negation s a).canonical := by
  cases h : a.isValid with
  | true =>
    rw [negate, if_pos h, canonical, canonical, optimize, optimize, bare_negateNormal,
      bare_negateNormal s]
  | false =>
    cases a with
    | invalid _ => rfl
    | _ => simp [isValid] at h

/-! ## The operators -/

/-- The operator joins terms to groups of kind `k`, and normal forms, which are compared up to spans, respect
this. -/
structure Joins (k : Connective) (op : Term → Term → Term) : Prop where
  assoc : ∀ a b c, op (op a b) c = op a (op b c)
  nothing_left : ∀ a, op nothing a = a
  nothing_right : ∀ a, (op a nothing).same a = true
  /-- All that a term may lose beside the term that says nothing is the span of something that says nothing
  itself. -/
  nothing_right_eq : ∀ a, op a nothing = if a.isValid then a else nothing
  optimize_group : ∀ s a b, (op a b).optimize.same (group s k [a, b]).optimize = true
  optimize_sides : ∀ s a b,
    (group s k [a, b]).optimize.same (op a.optimize b.optimize).optimize = true
  splice : ∀ r s q xs ys zs, (group r k (xs ++ [group s k ys] ++ zs)).optimize.same
    (group q k (xs ++ ys ++ zs)).optimize = true

theorem joins_join (k : Connective) : Joins k (join k) where
  assoc := join_assoc k
  nothing_left _ := rfl
  nothing_right a := by
    rw [join_nothing_right]
    split
    · exact same_refl a
    · rename_i h
      cases a with
      | invalid _ => rfl
      | _ => simp [isValid] at h
  nothing_right_eq := join_nothing_right k
  optimize_group s a b := by
    rw [same_optimize_iff, canonical_join]
    exact canonical_group_congr rfl
  optimize_sides s a b := by
    rw [same_optimize_iff, canonical_join_optimize]
    exact canonical_group_congr rfl
  splice r s q xs ys zs := same_optimize_iff.2 (canonical_group_splice r s q k xs ys zs)

/-- The operators form monoids that taking normal forms respects, and `~~~` has the normal form of a
negation. -/
theorem operators_lawful : Joins .and (· &&& ·) ∧ Joins .or (· ||| ·) ∧
    ∀ (s : Span) (a : Term), (~~~a).optimize.same (negation s a).optimize = true :=
  ⟨joins_join .and, joins_join .or, fun s a => same_optimize_iff.2 (canonical_negate s a)⟩

end Term

end DesktopSearch
