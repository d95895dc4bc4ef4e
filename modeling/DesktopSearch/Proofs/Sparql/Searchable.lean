import DesktopSearch.Proofs.Sparql.Lowering
import DesktopSearch.Proofs.Sparql.Preparation

/-!
# Searchable terms

A term is `Searchable` when every part of it searches for something that can be written down : words,
types, comparisons with a value that their property can have, and negations and groups of such terms.
Searchable terms stay so in normal form and when types are merged, and lowering them writes patterns,
also after they have been given something for their negations to filter.
-/

namespace DesktopSearch.Sparql

/-- Every part of the term searches for something. -/
inductive Searchable (o : Ontology) : Term → Prop
  | word (s : Span) (l : Literal) (undated : l.moment? = none) : Searchable o (.literal s l)
  | types (s : Span) (u : Uri) (us : List Uri) : Searchable o (.types s (u :: us))
  | literal (s : Span) (c : Comparison) (r : Span) (l : Literal) (fits : TakesLiteral o c) :
    Searchable o (.comparison s c (.literal r l))
  | resource (s : Span) (c : Comparison) (r : Span) (u : Uri) (fits : LeadsToResources o c)
    (plain : c.comparator ≠ .regexp) : Searchable o (.comparison s c (.resource r u))
  | nested (s : Span) (c : Comparison) (v : Term) (fits : LeadsToResources o c)
    (equal : c.comparator = .equal) (value : Searchable o v) : Searchable o (.comparison s c v)
  | negation (s : Span) (t : Term) (inner : Searchable o t) : Searchable o (.negation s t)
  | group (s : Span) (k : Connective) (ts : List Term) (full : ts ≠ [])
    (members : ∀ t ∈ ts, Searchable o t) : Searchable o (.group s k ts)

namespace Searchable

variable {o : Ontology} {t : Term}

theorem isValid (h : Searchable o t) : t.isValid = true := by
  cases h <;> rfl

theorem withSpan (h : Searchable o t) (s : Span) : Searchable o (t.withSpan s) := by
  cases h with
  | word _ l undated => exact .word s l undated
  | types _ u us => exact .types s u us
  | literal _ c r l fits => exact .literal s c r l fits
  | resource _ c r u fits plain => exact .resource s c r u fits plain
  | nested _ c v fits equal value => exact .nested s c v fits equal value
  | negation _ t inner => exact .negation s t inner
  | group _ k ts full members => exact .group s k ts full members

/-- A date stands in comparisons only. -/
theorem moment?_eq_none (h : Searchable o t) : t.moment? = none := by
  cases h with
  | word s l undated => exact undated
  | _ => rfl

/-! ## Normal form -/

theorem regroup (s : Span) (k : Connective) {ts : List Term} (full : ts ≠ [])
    (members : ∀ t ∈ ts, Searchable o t) : Searchable o (Term.regroup s k ts) := by
  match ts with
  | [] => contradiction
  | [t] => exact members t (by simp)
  | t :: u :: ts => exact .group s k _ full members

theorem spread_ne_nil (k : Connective) (h : Searchable o t) : Term.spread k t ≠ [] := by
  cases h with
  | group s l ts full members =>
    rw [Term.spread]
    split
    · exact full
    · simp
  | _ => simp [Term.spread]

theorem mem_spread {k : Connective} {u : Term} (h : Searchable o t) (hu : u ∈ Term.spread k t) :
    Searchable o u := by
  cases hk : t.isGroup k with
  | false =>
    rw [Term.spread_eq_singleton h.isValid hk, List.mem_singleton] at hu
    exact hu ▸ h
  | true =>
    cases h with
    | group s l ts full members =>
      rw [Term.isGroup, beq_iff_eq] at hk
      rw [Term.spread, if_pos hk] at hu
      exact members u hu
    | _ => simp [Term.isGroup] at hk

theorem negateNormal (s : Span) (h : Searchable o t) : Searchable o (Term.negateNormal s t) := by
  cases hn : t.isNegation with
  | false =>
    rw [Term.negateNormal_eq_negation s h.isValid hn]
    exact .negation s t h
  | true =>
    cases h with
    | negation _ t inner => exact inner
    | _ => simp [Term.isNegation] at hn

theorem optimize (h : Searchable o t) : Searchable o t.optimize := by
  induction h with
  | word s l undated => exact .word s l undated
  | types s u us => exact .types s u us
  | literal s c r l fits => exact .literal s c r l fits
  | resource s c r u fits plain => exact .resource s c r u fits plain
  | nested s c v fits equal _ ih => exact .nested s c _ fits equal ih
  | negation s t _ ih => exact ih.negateNormal s
  | group s k ts full _ ih =>
    rw [Term.optimize, Term.optimizeAll_eq_map]
    refine .regroup s k (Term.distinct_ne_nil ?_) fun t ht => ?_
    · obtain ⟨t, ht⟩ := List.exists_mem_of_ne_nil ts full
      obtain ⟨u, hu⟩ := List.exists_mem_of_ne_nil _ ((ih t ht).spread_ne_nil k)
      exact List.ne_nil_of_mem (List.mem_flatMap.2 ⟨_, List.mem_map_of_mem ht, hu⟩)
    · obtain ⟨u, hu, ht⟩ := List.mem_flatMap.1 (Term.mem_of_mem_distinct ht)
      obtain ⟨v, hv, rfl⟩ := List.mem_map.1 hu
      exact (ih v hv).mem_spread ht

/-! ## Merged types -/

theorem alternatives (ts : List Term) (full : ts ≠ []) (members : ∀ t ∈ ts, Searchable o t) :
    Searchable o (alternatives ts) := by
  match ts with
  | [] => contradiction
  | [t] => exact members t (by simp)
  | t :: u :: ts => exact .group _ .or _ full members

theorem types_ne_nil (h : Searchable o t) : t.types? ≠ some [] := by
  cases h <;> simp [Term.types?]

/-- Members whose types come to nothing have no types. -/
theorem types?_eq_none_of_widest (ho : o.IsHierarchy) {ts : List Term}
    (members : ∀ t ∈ ts, Searchable o t)
    (h : widest o (ts.filterMap Term.types?).flatten = []) : ∀ t ∈ ts, t.types? = none := by
  have hnil : (ts.filterMap Term.types?).flatten = [] := by
    by_contra hne
    exact widest_ne_nil ho hne h
  intro t ht
  cases htypes : t.types? with
  | none => rfl
  | some us =>
    have hus := List.flatten_eq_nil_iff.1 hnil us (List.mem_filterMap.2 ⟨t, ht, htypes⟩)
    exact absurd (hus ▸ htypes) (members t ht).types_ne_nil

/-- Merging types leaves something of every group of alternatives. -/
theorem refine_or (ho : o.IsHierarchy) (s : Span) {ts : List Term} (full : ts ≠ [])
    (members : ∀ t ∈ ts, Searchable o t) (ih : ∀ t ∈ ts, Searchable o (Sparql.refine o t)) :
    Searchable o (Sparql.refine o (.group s .or ts)) := by
  have hothers : ∀ u ∈ refineOthers o ts, Searchable o u := fun u hu => by
    obtain ⟨t, ht, -, rfl⟩ := mem_refineOthers.1 hu
    exact ih t ht
  rw [Sparql.refine]
  cases hmerged : widest o (ts.filterMap Term.types?).flatten with
  | cons u us =>
    refine .alternatives _ (by simp) (List.forall_mem_append.2 ⟨hothers, ?_⟩)
    rw [List.isEmpty_cons, if_neg (by simp), List.forall_mem_singleton]
    exact .types _ u us
  | nil =>
    obtain ⟨t, ht⟩ := List.exists_mem_of_ne_nil ts full
    have hnone := types?_eq_none_of_widest ho members hmerged t ht
    refine .alternatives _ ?_ (by simpa using hothers)
    exact List.ne_nil_of_mem (List.mem_append_left _ (mem_refineOthers.2 ⟨t, ht, hnone, rfl⟩))

theorem refine (ho : o.IsHierarchy) (h : Searchable o t) : Searchable o (refine o t) := by
  induction h with
  | word s l undated => exact .word s l undated
  | types s u us => exact .types s u us
  | literal s c r l fits => exact .literal _ c r l fits
  | resource s c r u fits plain => exact .resource _ c r u fits plain
  | nested s c v fits equal _ ih => exact .nested _ c _ fits equal ih
  | negation s t _ ih => exact .negation _ _ ih
  | group s k ts full members ih =>
    cases k with
    | or => exact refine_or ho s full members ih
    | and =>
      rw [Sparql.refine]
      refine .group _ .and _ ?_ fun u hu => ?_
      · obtain ⟨t, ht⟩ := List.exists_mem_of_ne_nil ts full
        exact List.ne_nil_of_mem (mem_refineNamed.2 ⟨t, ht, rfl⟩)
      · obtain ⟨t, ht, rfl⟩ := mem_refineNamed.1 hu
        exact ih t ht

/-! ## Lowering -/

variable {x : Setting}

/-- A searchable term is written down. -/
theorem writes_lower (h : Searchable x.ontology t) : ∀ subject, Writes (lower x t subject) := by
  induction h with
  | word s l _ => exact fun subject => writes_lowerLiteral x l subject
  | types s u us => exact fun subject => writes_lowerTypes u us subject
  | literal s c r l fits => exact fun subject => writes_lowerComparison_literal fits r l subject
  | resource s c r u fits plain =>
    exact fun subject => writes_lowerComparison_resource fits plain r u subject
  | nested s c v fits equal value ih =>
    exact fun subject => writes_lowerComparison_nested fits equal value.isValid ih subject
  | negation s t _ ih =>
    exact fun subject => (ih subject).succeeds.inGroup.bind fun _ _ => produces_pure (by simp)
  | group s k ts full _ ih =>
    cases k with
    | and =>
      obtain ⟨t, ts, rfl⟩ := List.exists_cons_of_ne_nil full
      exact writes_lowerAll (ih t (by simp)) fun u hu v => (ih u (by simp [hu]) v).succeeds
    | or => exact writes_lower_oneOf fun u hu v => (ih u hu v).succeeds

/-- What the negations of a group filter can be written down. -/
theorem succeeds_lower_typeAnchor (subject : Variable) : Succeeds (lower x typeAnchor subject) :=
  succeeds_existence x _ subject

/-- A group that all hold in is written down if each member is, alone or with its own anchors. -/
theorem writes_lower_anchor_and (s : Span) {ts : List Term} (full : ts ≠ [])
    (plain : ∀ t ∈ ts, ∀ v, Writes (lower x t v))
    (anchored : ∀ t ∈ ts, ∀ v, Writes (lower x (anchor t) v)) :
    ∀ subject, Writes (lower x (anchor (.group s .and ts)) subject) := by
  obtain ⟨t, ts, rfl⟩ := List.exists_cons_of_ne_nil full
  have hmember : ∀ u ∈ t :: ts, ∀ v,
      Writes (lower x (if u.isNegation then u else anchor u) v) := by
    intro u hu v
    split
    · exact plain u hu v
    · exact anchored u hu v
  rw [anchor, anchorMembers_eq, List.map_cons, List.cons_append]
  refine writes_lowerAll (hmember t (by simp)) (List.forall_mem_append.2 ⟨?_, ?_⟩)
  · rw [List.forall_mem_map]
    exact fun u hu v => (hmember u (by simp [hu]) v).succeeds
  · split
    · exact fun u hu v => List.mem_singleton.1 hu ▸ succeeds_lower_typeAnchor v
    · simp

/-- A searchable term is written down also when its negations have been given something to filter. -/
theorem writes_lower_anchor (h : Searchable x.ontology t) :
    ∀ subject, Writes (lower x (anchor t) subject) := by
  induction h with
  | word s l undated => exact (Searchable.word s l undated).writes_lower
  | types s u us => exact (Searchable.types s u us).writes_lower
  | literal s c r l fits => exact (Searchable.literal .empty c r l fits).writes_lower
  | resource s c r u fits plain => exact (Searchable.resource .empty c r u fits plain).writes_lower
  | nested s c v fits equal value ih =>
    exact fun subject =>
      writes_lowerComparison_nested fits equal (isValid_anchor value.isValid) ih subject
  | negation s t inner ih =>
    have hnegation := (Searchable.negation s t inner).writes_lower
    refine writes_lowerAll hnegation fun u hu v => ?_
    rw [List.mem_singleton.1 hu]
    exact succeeds_lower_typeAnchor v
  | group s k ts full members ih =>
    cases k with
    | and => exact writes_lower_anchor_and s full (fun u hu => (members u hu).writes_lower) ih
    | or =>
      obtain ⟨t, ts, rfl⟩ := List.exists_cons_of_ne_nil full
      rw [anchor, anchorAll_eq]
      refine writes_lower_oneOf ?_
      rw [List.forall_mem_map]
      exact fun u hu v => (ih u hu v).succeeds

end Searchable

end DesktopSearch.Sparql
