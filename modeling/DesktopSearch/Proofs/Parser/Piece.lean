import DesktopSearch.Proofs.Fusion.Basic
import DesktopSearch.Proofs.Fusion.Tuning
import DesktopSearch.Proofs.Pattern.Rewriting
import DesktopSearch.Proofs.Sparql.Searchable

/-!
# Pieces of a text

While a text is being read, its terms are a list of `Piece`s : literals, types, comparisons that have no
property yet, comparisons with a property whose values are of the sort that it has in every context, and
calendar fields that wait to be folded. Tuned to any context a piece is a term that can be searched for
in the desktop vocabulary (`Piece.tune`), and so is what pieces are fused to (`fuse_of_pieces`).
-/

namespace DesktopSearch

open Sparql

/-- What a term in the list of terms of a text can be. -/
inductive Piece : Term → Prop
  | literal (s : Span) (l : Literal) : Piece (.literal s l)
  | types (s : Span) (u : Uri) (us : List Uri) : Piece (.types s (u :: us))
  | unbound (s : Span) (c : Comparison) (r : Span) (l : Literal) (free : c.property = none)
    (plain : c.comparator ≠ .regexp) : Piece (.comparison s c (.literal r l))
  | value (s : Span) (c : Comparison) (p : Uri) (r : Span) (l : Literal)
    (bound : c.property = some p) (fits : HasLiterals p) : Piece (.comparison s c (.literal r l))
  | field (s : Span) (c : Comparison) (r : Span) (n : Int) (equal : c.comparator = .equal) :
    Piece (.comparison s c (.literal r (.integer n)))
  | resource (s : Span) (c : Comparison) (p : Uri) (r : Span) (u : Uri)
    (bound : c.property = some p) (fits : HasResources p) (plain : c.comparator ≠ .regexp) :
    Piece (.comparison s c (.resource r u))
  | nested (s : Span) (c : Comparison) (p : Uri) (v : Term) (bound : c.property = some p)
    (fits : HasResources p) (equal : c.comparator = .equal)
    (value : Searchable Ontology.desktop v) : Piece (.comparison s c v)

theorem piece_ignoresSpans : IgnoresSpans Piece := by
  intro t s h
  cases h with
  | literal _ l => exact .literal s l
  | types _ u us => exact .types s u us
  | unbound _ c r l free plain => exact .unbound s c r l free plain
  | value _ c p r l bound fits => exact .value s c p r l bound fits
  | field _ c r n equal => exact .field s c r n equal
  | resource _ c p r u bound fits plain => exact .resource s c p r u bound fits plain
  | nested _ c p v bound fits equal value => exact .nested s c p v bound fits equal value

/-! ## Tuning -/

theorem searchable_between {p : Option Uri} (h : ∀ q ∈ p, q ∈ Ontology.literalProperties)
    (low high : Literal) (s : Span) :
    Searchable Ontology.desktop (.between p low high s) := by
  refine .group s .and _ (by simp) ?_
  have hbound (l : Literal) (c : Comparator) : Searchable Ontology.desktop
      ((Term.compare p (.literal s l) c).withSpan s) :=
    .literal s _ s l (Or.inl fun q hq => Ontology.literalRange?_isSome (h q hq))
  rw [List.forall_mem_cons, List.forall_mem_singleton]
  exact ⟨hbound low _, hbound high _⟩

theorem leadsToResources_settle {p : Uri} (h : HasResources p) (k : ResourceContext)
    (c : Comparison) :
    LeadsToResources Ontology.desktop { c with property := k.settle (some p) } :=
  fun q hq => Ontology.literalRange?_eq_none (h k q hq)

/-- Comparing with a literal is searched for in every context where it fits. -/
theorem searchable_tuneComparison_literal {k : ResourceContext} {c : Comparison}
    (h : ∀ q ∈ k.settle c.property, q ∈ Ontology.literalProperties) (s r : Span) (l : Literal) :
    Searchable Ontology.desktop (tuneComparison k s c (.literal r l)) := by
  rw [tuneComparison_eq]
  split
  · exact searchable_between h _ _ s
  · exact .literal s _ r l (Or.inl fun q hq => Ontology.literalRange?_isSome (h q hq))

theorem mem_literalProperties_sizeProperty? (k : ResourceContext) :
    ∀ q ∈ k.sizeProperty?, q ∈ Ontology.literalProperties := fun _ =>
  ResourceContext.mem_literalProperties_of_resolve? (by simp [literalNames])

theorem mem_literalProperties_dateProperty? (k : ResourceContext) :
    ∀ q ∈ k.dateProperty?, q ∈ Ontology.literalProperties := fun _ =>
  ResourceContext.mem_literalProperties_of_resolve? (by simp [literalNames])

variable {settings : Settings} {flags : ParserFlags}

/-- A piece can be searched for once it is tuned. -/
theorem Piece.tune {t : Term} (h : Piece t) (k : ResourceContext) :
    Searchable Ontology.desktop (tune settings flags k t) := by
  cases h with
  | literal s l =>
    cases l with
    | string w =>
      rw [DesktopSearch.tune]
      split
      · exact .word s _ rfl
      · exact .word s _ rfl
    | boolean b => exact .word s _ rfl
    | integer n => exact searchable_between (mem_literalProperties_sizeProperty? k) _ _ s
    | double d => exact searchable_between (mem_literalProperties_sizeProperty? k) _ _ s
    | dateTime m => exact searchable_between (mem_literalProperties_dateProperty? k) _ _ s
  | types s u us => exact .types s u us
  | unbound s c r l free plain =>
    refine searchable_tuneComparison_literal ?_ s r l
    rw [free]
    simp [ResourceContext.settle]
  | value s c p r l bound fits =>
    refine searchable_tuneComparison_literal ?_ s r l
    rw [bound]
    exact fits k
  | field s c r n equal =>
    exact .literal s { c with property := k.settle c.property } r _ (Or.inr (Or.inl equal))
  | resource s c p r u bound fits plain =>
    refine .resource s { c with property := k.settle c.property } r u ?_ plain
    rw [bound]
    exact leadsToResources_settle fits k c
  | nested s c p v bound fits equal value =>
    change Searchable _ (tuneComparison k s c v)
    rw [tuneComparison_eq, value.moment?_eq_none, bound]
    exact .nested s _ v (leadsToResources_settle fits k c) equal value

/-! ## Fusing -/

/-- Searchable terms are joined to searchable terms. -/
theorem closedUnderFusion_searchable : ClosedUnderFusion (Searchable Ontology.desktop) where
  withSpan s h := h.withSpan s
  negation s h := .negation s _ h
  append k ha hb := by
    refine Term.append_of_groups (fun s k a b ha hb => ?_) (fun s s' k ts t hts ht => ?_) k ha hb
    · exact .group s k _ (by simp) (by simp [ha, hb])
    · cases hts with
      | group _ _ _ _ members =>
        refine .group s k _ (by simp) (List.forall_mem_append.2 ⟨members, ?_⟩)
        rw [List.forall_mem_singleton]
        exact ht

/-- Pieces are fused to something that can be searched for, if it says anything. -/
theorem fuse_of_pieces {ts : List Term} (h : ∀ t ∈ ts, Piece t ∨ t = .nothing) :
    (fuse settings flags ts 0).1.IsKind (Searchable Ontology.desktop) := by
  refine fuse_of_tuned closedUnderFusion_searchable fun t ht k => ?_
  rcases h t ht with hpiece | rfl
  · exact fun _ => hpiece.tune k
  · exact Term.isKind_of_not_isValid rfl

end DesktopSearch
