import DesktopSearch.Proofs.Sparql.Preparation
import DesktopSearch.Proofs.Term.Basic

/-!
# Anchored negations

A negation filters what the rest of its conjunction has matched. `anchor` makes sure that there is such a
rest (`negations_anchored`) : every negation that stands in no other one becomes a member of a conjunction
with an anchor beside it. The anchor is looked for among the members as they were, and still is one
afterwards, for anchoring a member never changes what kind of member it is unless it is a negation
(`isAnchor_anchor`), and negations are left alone. All else stays as it was and where it was
(`anchorsAdded_anchor`).
-/

namespace DesktopSearch

namespace Term

/-- The parts of a term that stand in no negation. A negation may be one of them, what it negates is not. -/
inductive OuterPart (t : Term) : Term → Prop
  | self : OuterPart t t
  | child {u w : Term} (hu : OuterPart t u) (hnegation : u.isNegation = false)
    (hw : w ∈ u.children) : OuterPart t w

/-- An outer part of a term is the term, or an outer part of what is directly below it. -/
theorem OuterPart.eq_self_or {t u : Term} (h : t.OuterPart u) :
    u = t ∨ ∃ w ∈ t.children, w.OuterPart u := by
  induction h with
  | self => exact Or.inl rfl
  | child _ hnegation hw ih =>
    rcases ih with rfl | ⟨v, hv, hpart⟩
    · exact Or.inr ⟨_, hw, .self⟩
    · exact Or.inr ⟨v, hv, .child hpart hnegation hw⟩

/-- What is outside of all negations in a negation is the negation. -/
theorem OuterPart.eq_of_isNegation {t u : Term} (h : t.OuterPart u) (ht : t.isNegation = true) :
    u = t := by
  induction h with
  | self => rfl
  | child _ hnegation _ ih =>
    rw [ih, ht] at hnegation
    contradiction

end Term

namespace Sparql

open Term

/-! ## Kinds of members -/

theorem isNegation_anchor (t : Term) : (anchor t).isNegation = false := by
  cases t with
  | group s k ts => cases k <;> rfl
  | _ => rfl

theorem isAnchor_anchor {t : Term} (h : t.isNegation = false) : isAnchor (anchor t) = isAnchor t := by
  cases t with
  | negation s t => simp [isNegation] at h
  | group s k ts => cases k <;> rfl
  | _ => rfl

/-- A member of a conjunction as it is anchored. -/
def anchorMember (t : Term) : Term := if t.isNegation then t else anchor t

theorem isNegation_anchorMember (t : Term) : (anchorMember t).isNegation = t.isNegation := by
  cases h : t.isNegation with
  | true => rw [anchorMember, if_pos h, h]
  | false => rw [anchorMember, if_neg (by simp [h]), isNegation_anchor]

theorem isAnchor_anchorMember (t : Term) : isAnchor (anchorMember t) = isAnchor t := by
  cases h : t.isNegation with
  | true => rw [anchorMember, if_pos h]
  | false => rw [anchorMember, if_neg (by simp [h]), isAnchor_anchor h]

/-- Whether a conjunction has negations, and nothing for them to filter. -/
def needsAnchor (ts : List Term) : Bool := ts.any isNegation && !ts.any isAnchor

/-- What is added to the members of a conjunction. -/
def addedAnchor (ts : List Term) : List Term := if needsAnchor ts then [typeAnchor] else []

theorem anchor_group_and (s : Span) (ts : List Term) :
    anchor (.group s .and ts) = allOf (ts.map anchorMember ++ addedAnchor ts) := by
  rw [anchor, anchorMembers_eq]
  rfl

theorem anchor_group_or (s : Span) (ts : List Term) :
    anchor (.group s .or ts) = oneOf (ts.map anchor) := by
  rw [anchor, anchorAll_eq]

/-- A member of an anchored conjunction was one before, or is the anchor. -/
theorem mem_anchored {ts : List Term} {u : Term} (h : u ∈ ts.map anchorMember ++ addedAnchor ts) :
    (∃ t ∈ ts, anchorMember t = u) ∨ u = typeAnchor := by
  rcases List.mem_append.1 h with h | h
  · exact Or.inl (List.mem_map.1 h)
  · rw [addedAnchor] at h
    split at h
    · exact Or.inr (List.mem_singleton.1 h)
    · contradiction

/-- Beside a negation there is an anchor, if it was not there before. -/
theorem exists_anchor {ts : List Term} (h : ts.any isNegation = true) :
    ∃ a ∈ ts.map anchorMember ++ addedAnchor ts, isAnchor a = true := by
  cases hanchor : ts.any isAnchor with
  | true =>
    obtain ⟨t, ht, hanchor⟩ := List.any_eq_true.1 hanchor
    refine ⟨anchorMember t, List.mem_append_left _ (List.mem_map_of_mem ht), ?_⟩
    rw [isAnchor_anchorMember, hanchor]
  | false =>
    refine ⟨typeAnchor, List.mem_append_right _ ?_, rfl⟩
    rw [addedAnchor, needsAnchor, h, hanchor]
    exact List.mem_singleton_self _

/-! ## Where negations stand -/

/-- The negations directly below the term are members of a conjunction that has an anchor, too. -/
def HoldsAnchored (p : Term) : Prop :=
  ∀ u ∈ p.children, u.isNegation = true →
    ∃ s ts a, p = .group s .and ts ∧ a ∈ ts ∧ isAnchor a = true

theorem holdsAnchored_of_forall {p : Term} (h : ∀ u ∈ p.children, u.isNegation = false) :
    HoldsAnchored p := by
  intro u hu hnegation
  rw [h u hu] at hnegation
  contradiction

/-- All outer parts of a term, negations apart, hold their negations anchored. -/
def IsAnchored (t : Term) : Prop := ∀ p, t.OuterPart p → p.isNegation = false → HoldsAnchored p

theorem isAnchored_of_isNegation {t : Term} (h : t.isNegation = true) : IsAnchored t := by
  intro p hp hnegation
  rw [hp.eq_of_isNegation h, h] at hnegation
  contradiction

theorem isAnchored_of_children {t : Term} (h : HoldsAnchored t)
    (hchildren : ∀ u ∈ t.children, IsAnchored u) : IsAnchored t := by
  intro p hp hnegation
  rcases hp.eq_self_or with rfl | ⟨w, hw, hpart⟩
  · exact h
  · exact hchildren w hw p hpart hnegation

/-- A term of one part below that is no negation. -/
theorem isAnchored_of_child {t u : Term} (ht : t.children = [u]) (hu : u.isNegation = false)
    (h : IsAnchored u) : IsAnchored t := by
  refine isAnchored_of_children (holdsAnchored_of_forall ?_) ?_
  · rw [ht]
    exact List.forall_mem_singleton.2 hu
  · rw [ht]
    exact List.forall_mem_singleton.2 h

theorem isAnchored_of_children_eq_nil {t : Term} (h : t.children = []) : IsAnchored t :=
  isAnchored_of_children (by simp [HoldsAnchored, h]) (by simp [h])

theorem isAnchored_typeAnchor : IsAnchored typeAnchor :=
  isAnchored_of_child rfl rfl (isAnchored_of_children_eq_nil rfl)

/-- A negation in an anchored conjunction was a member of it before, so there is an anchor. -/
theorem holdsAnchored_anchored (s : Span) (ts : List Term) :
    HoldsAnchored (.group s .and (ts.map anchorMember ++ addedAnchor ts)) := by
  intro u hu hnegation
  rw [children_group] at hu
  have hbefore : ts.any isNegation = true := by
    rcases mem_anchored hu with ⟨t, ht, rfl⟩ | rfl
    · exact List.any_eq_true.2 ⟨t, ht, by rw [← isNegation_anchorMember, hnegation]⟩
    · contradiction
  obtain ⟨a, ha, hanchor⟩ := exists_anchor hbefore
  exact ⟨_, _, a, rfl, ha, hanchor⟩

theorem isAnchored_anchorMember {t : Term} (h : IsAnchored (anchor t)) :
    IsAnchored (anchorMember t) := by
  rw [anchorMember]
  split
  · exact isAnchored_of_isNegation ‹_›
  · exact h

theorem isAnchored_anchor (t : Term) : IsAnchored (anchor t) := by
  induction t with
  | comparison s c v ih => exact isAnchored_of_child rfl (isNegation_anchor v) ih
  | optional s t ih => exact isAnchored_of_child rfl (isNegation_anchor t) ih
  | negation s t ih =>
    refine isAnchored_of_children ?_ ?_
    · exact fun u _ _ => ⟨_, _, typeAnchor, rfl, by simp, rfl⟩
    · rintro u hu
      rcases List.mem_cons.1 hu with rfl | hu
      · exact isAnchored_of_isNegation rfl
      · exact List.mem_singleton.1 hu ▸ isAnchored_typeAnchor
  | group s k ts ih =>
    cases k with
    | and =>
      rw [anchor_group_and, allOf]
      refine isAnchored_of_children (holdsAnchored_anchored _ ts) fun u hu => ?_
      rw [children_group] at hu
      rcases mem_anchored hu with ⟨t, ht, rfl⟩ | rfl
      · exact isAnchored_anchorMember (ih t ht)
      · exact isAnchored_typeAnchor
    | or =>
      rw [anchor_group_or]
      have hmember : ∀ u ∈ ts.map anchor, u.isNegation = false ∧ IsAnchored u := by
        rw [List.forall_mem_map]
        exact fun t ht => ⟨isNegation_anchor t, ih t ht⟩
      exact isAnchored_of_children (holdsAnchored_of_forall fun u hu => (hmember u hu).1)
        fun u hu => (hmember u hu).2
  | _ => exact isAnchored_of_children_eq_nil rfl

/-! ## What is added -/

/-- The second term is the first, but for spans and for anchors : they may be added behind the members of a
conjunction, or beside a negation, which makes a conjunction of the two. What is negated stays as it is. -/
inductive AnchorsAdded : Term → Term → Prop
  | same (t : Term) : AnchorsAdded t t
  | comparison (r s : Span) (c : Comparison) {t u : Term} (h : AnchorsAdded t u) :
    AnchorsAdded (.comparison r c t) (.comparison s c u)
  | optional (r s : Span) {t u : Term} (h : AnchorsAdded t u) :
    AnchorsAdded (.optional r t) (.optional s u)
  | group (r s : Span) (k : Connective) {ts us : List Term} (h : List.Forall₂ AnchorsAdded ts us) :
    AnchorsAdded (.group r k ts) (.group s k us)
  | behind (r s : Span) {ts us : List Term} (h : List.Forall₂ AnchorsAdded ts us) :
    AnchorsAdded (.group r .and ts) (.group s .and (us ++ [typeAnchor]))
  | beside (r s : Span) (t : Term) :
    AnchorsAdded (.negation r t) (.group s .and [.negation r t, typeAnchor])

theorem anchorsAdded_anchor (t : Term) : AnchorsAdded t (anchor t) := by
  induction t with
  | comparison s c v ih => exact .comparison s .empty c ih
  | optional s t ih => exact .optional s .empty ih
  | negation s t ih => exact .beside s .empty t
  | group s k ts ih =>
    cases k with
    | and =>
      have hmembers : List.Forall₂ AnchorsAdded ts (ts.map anchorMember) := by
        refine List.forall₂_map_right_iff.2 (List.forall₂_same.2 fun t ht => ?_)
        rw [anchorMember]
        split
        · exact .same t
        · exact ih t ht
      rw [anchor_group_and, addedAnchor]
      split
      · exact .behind s .empty hmembers
      · rw [List.append_nil]
        exact .group s .empty .and hmembers
    | or =>
      rw [anchor_group_or]
      exact .group s .empty .or (List.forall₂_map_right_iff.2 (List.forall₂_same.2 ih))
  | _ => exact .same _

/-! ## Anchoring again -/

/-- Nothing is missing any more. -/
theorem addedAnchor_append_addedAnchor (ts : List Term) :
    addedAnchor (ts.map anchorMember ++ addedAnchor ts) = [] := by
  have hsame {p : Term → Bool} (h : ∀ t, p (anchorMember t) = p t) :
      (ts.map anchorMember).any p = ts.any p := by
    rw [List.any_map]
    exact congrArg (List.any ts) (funext h)
  have hneeds : needsAnchor (ts.map anchorMember ++ addedAnchor ts) = false := by
    rw [needsAnchor, List.any_append, List.any_append, hsame isNegation_anchorMember,
      hsame isAnchor_anchorMember, addedAnchor, needsAnchor]
    cases hanchor : ts.any isAnchor <;> cases hnegation : ts.any isNegation <;> rfl
  rw [addedAnchor, hneeds, if_neg Bool.false_ne_true]

theorem map_anchorMember_addedAnchor (ts : List Term) :
    (addedAnchor ts).map anchorMember = addedAnchor ts := by
  rw [addedAnchor]
  split <;> rfl

theorem anchorMember_anchorMember {t : Term} (h : anchor (anchor t) = anchor t) :
    anchorMember (anchorMember t) = anchorMember t := by
  cases hnegation : t.isNegation with
  | true => rw [anchorMember, isNegation_anchorMember, if_pos hnegation]
  | false =>
    rw [anchorMember, isNegation_anchorMember, if_neg (by simp [hnegation]), anchorMember,
      if_neg (by simp [hnegation]), h]

theorem anchor_anchor (t : Term) : anchor (anchor t) = anchor t := by
  induction t with
  | comparison s c v ih => rw [anchor, anchor, ih]
  | optional s t ih => rw [anchor, anchor, ih]
  | group s k ts ih =>
    cases k with
    | and =>
      have hmembers : (ts.map anchorMember).map anchorMember = ts.map anchorMember := by
        rw [List.map_map]
        exact List.map_congr_left fun t ht => anchorMember_anchorMember (ih t ht)
      rw [anchor_group_and, allOf, anchor_group_and, addedAnchor_append_addedAnchor, List.append_nil,
        List.map_append, hmembers, map_anchorMember_addedAnchor, allOf]
    | or =>
      rw [anchor_group_or, oneOf, anchor_group_or, List.map_map]
      exact congrArg oneOf (List.map_congr_left ih)
  | _ => rfl

/-- After anchoring, a negation is not the whole term, and every one that stands in no other negation is a
member of a conjunction that has a comparison, a type restriction or a literal for a member as well. Nothing
is added for that but restrictions to what has a type, in conjunctions; all other parts stay what and where
they were, and what is negated is left alone. Anchoring again changes nothing. -/
theorem negations_anchored (t : Term) :
    (anchor t).isNegation = false ∧
    (∀ p, (anchor t).OuterPart p → p.isNegation = false → ∀ u ∈ p.children, u.isNegation = true →
      ∃ s ts a, p = .group s .and ts ∧ a ∈ ts ∧ isAnchor a = true) ∧
    AnchorsAdded t (anchor t) ∧
    anchor (anchor t) = anchor t :=
  ⟨isNegation_anchor t, isAnchored_anchor t, anchorsAdded_anchor t, anchor_anchor t⟩

end Sparql

end DesktopSearch
