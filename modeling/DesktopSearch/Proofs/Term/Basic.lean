import DesktopSearch.Term.Basic
import Mathlib.Data.List.Forall2

/-!
# Induction on terms, parts, and equality up to spans

A term holds the members of its groups in lists. `Term.induct` is the induction over such trees: a
property that a group inherits from all of its members holds of every term. The `Part`s of a term are
what its properties at any depth are about. Two groups are the `same` when they have the same connective
and their members are pairwise the same.
-/

namespace DesktopSearch.Term

/-! ## Induction -/

/-- Induction over terms, with the members of a group taken one by one. -/
@[induction_eliminator] theorem induct {p : Term → Prop} (invalid : ∀ s, p (invalid s))
    (literal : ∀ s l, p (literal s l)) (resource : ∀ s u, p (resource s u))
    (types : ∀ s us, p (types s us)) (comparison : ∀ s c v, p v → p (comparison s c v))
    (negation : ∀ s t, p t → p (negation s t)) (optional : ∀ s t, p t → p (optional s t))
    (group : ∀ s k ts, (∀ t ∈ ts, p t) → p (group s k ts)) : ∀ t, p t
  | .invalid s => invalid s
  | .literal s l => literal s l
  | .resource s u => resource s u
  | .types s us => types s us
  | .comparison s c v =>
    comparison s c v (induct invalid literal resource types comparison negation optional group v)
  | .negation s t =>
    negation s t (induct invalid literal resource types comparison negation optional group t)
  | .optional s t =>
    optional s t (induct invalid literal resource types comparison negation optional group t)
  | .group s k ts =>
    group s k ts fun t _ =>
      induct invalid literal resource types comparison negation optional group t
termination_by t => sizeOf t
decreasing_by
  · rw [Term.comparison.sizeOf_spec]
    omega
  · rw [Term.negation.sizeOf_spec]
    omega
  · rw [Term.optional.sizeOf_spec]
    omega
  · have := List.sizeOf_lt_of_mem ‹t ∈ ts›
    rw [Term.group.sizeOf_spec]
    omega

/-! ## Parts -/

/-- The terms directly below a term. -/
def children (t : Term) : List Term := t.inner?.toList ++ t.members

@[simp] theorem children_invalid (s : Span) : (invalid s).children = [] := rfl

@[simp] theorem children_literal (s : Span) (l : Literal) : (literal s l).children = [] := rfl

@[simp] theorem children_resource (s : Span) (u : Uri) : (resource s u).children = [] := rfl

@[simp] theorem children_types (s : Span) (us : List Uri) : (types s us).children = [] := rfl

@[simp] theorem children_comparison (s : Span) (c : Comparison) (v : Term) :
    (comparison s c v).children = [v] := rfl

@[simp] theorem children_negation (s : Span) (t : Term) : (negation s t).children = [t] := rfl

@[simp] theorem children_optional (s : Span) (t : Term) : (optional s t).children = [t] := rfl

@[simp] theorem children_group (s : Span) (k : Connective) (ts : List Term) :
    (group s k ts).children = ts := rfl

/-- The parts of a term are the term and what is below its parts. -/
inductive Part (t : Term) : Term → Prop
  | self : Part t t
  | child {u w : Term} (hu : Part t u) (hw : w ∈ u.children) : Part t w

/-- A part of a part is a part. -/
theorem Part.trans {t u w : Term} (hu : t.Part u) (hw : u.Part w) : t.Part w := by
  induction hw with
  | self => exact hu
  | child _ hmem ih => exact .child ih hmem

/-- The parts of what is below a term are parts of the term. -/
theorem Part.of_child {t u w : Term} (hu : u ∈ t.children) (hw : u.Part w) : t.Part w :=
  trans (.child .self hu) hw

/-- A part of a term is the term, or a part of what is directly below it. -/
theorem Part.eq_self_or {t u : Term} (h : t.Part u) : u = t ∨ ∃ w ∈ t.children, w.Part u := by
  induction h with
  | self => exact Or.inl rfl
  | child _ hw ih =>
    rcases ih with rfl | ⟨v, hv, hpart⟩
    · exact Or.inr ⟨_, hw, .self⟩
    · exact Or.inr ⟨v, hv, .child hpart hw⟩

/-! ## Equality up to spans -/

theorem sameMembers_iff : ∀ {as bs : List Term},
    sameMembers as bs = true ↔ List.Forall₂ (fun a b => a.same b = true) as bs
  | [], [] => by simp [sameMembers]
  | [], _ :: _ => by simp [sameMembers]
  | _ :: _, [] => by simp [sameMembers]
  | a :: as, b :: bs => by
    rw [sameMembers, Bool.and_eq_true, List.forall₂_cons, sameMembers_iff]

/-- Every term is the same as itself. -/
theorem same_refl (t : Term) : t.same t = true := by
  induction t with
  | invalid s => rfl
  | literal s l => simp [same]
  | resource s u => simp [same]
  | types s us => simp [same]
  | comparison s c v ih => simp [same, ih]
  | negation s t ih => exact ih
  | optional s t ih => exact ih
  | group s k ts ih =>
    rw [same, Bool.and_eq_true, sameMembers_iff, List.forall₂_same]
    exact ⟨beq_self_eq_true k, ih⟩

end DesktopSearch.Term
