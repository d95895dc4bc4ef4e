import DesktopSearch.Proofs.Fusion.Basic
import DesktopSearch.Proofs.Fusion.Tuning
import DesktopSearch.Proofs.Term.Basic

/-!
# Settled terms

While a text is being read its terms are in forms that only the program itself knows : comparisons with a
calendar field or with the name of a property, plain numbers, dates without a property. A `Settled` term
has none of these forms, in whichever of its `Part`s (`IsKind.part`), and its groups have members to
join. Fusing settled terms makes settled terms.
-/

namespace DesktopSearch

/-- A value that is searched for as it is : no number and no date. -/
def Literal.IsWord (l : Literal) : Prop := l.type ∉ [.integer, .double, .dateTime]

namespace Term

/-- Whether the term is a value and nothing more. -/
def isScalar : Term → Bool
  | literal .. | resource .. => true
  | _ => false

/-- Nothing in the term waits for a context, a date or a property. -/
inductive Settled : Term → Prop
  | word (s : Span) (l : Literal) (word : l.IsWord) : Settled (literal s l)
  | types (s : Span) (us : List Uri) : Settled (types s us)
  | literal (s : Span) (c : Comparison) (r : Span) (l : Literal)
    (property : ∀ p ∈ c.property, p.IsSettled) (ranged : c.comparator = .equal → l.moment? = none) :
    Settled (comparison s c (.literal r l))
  | resource (s : Span) (c : Comparison) (r : Span) (u : Uri)
    (property : ∀ p ∈ c.property, p.IsSettled) : Settled (comparison s c (.resource r u))
  | nested (s : Span) (c : Comparison) (v : Term) (property : ∀ p ∈ c.property, p.IsSettled)
    (value : Settled v) : Settled (comparison s c v)
  | negation (s : Span) (t : Term) (inner : Settled t) : Settled (negation s t)
  | group (s : Span) (k : Connective) (ts : List Term) (full : 2 ≤ ts.length)
    (members : ∀ t ∈ ts, Settled t) : Settled (group s k ts)

namespace Settled

variable {t u : Term}

theorem isValid (h : Settled t) : t.isValid = true := by
  cases h <;> rfl

theorem moment?_eq_none (h : Settled t) : t.moment? = none := by
  cases h with
  | word s l word =>
    cases l with
    | dateTime m => simp [Literal.IsWord, Literal.type] at word
    | _ => rfl
  | _ => rfl

theorem withSpan (h : Settled t) (s : Span) : Settled (t.withSpan s) := by
  cases h with
  | word _ l word => exact .word s l word
  | types _ us => exact .types s us
  | literal _ c r l property ranged => exact .literal s c r l property ranged
  | resource _ c r u property => exact .resource s c r u property
  | nested _ c v property value => exact .nested s c v property value
  | negation _ t inner => exact .negation s t inner
  | group _ k ts full members => exact .group s k ts full members

/-- What is below a settled term is settled, or is the value of a comparison. -/
theorem child (h : Settled t) (hu : u ∈ t.children) :
    Settled u ∨ t.isComparison = true ∧ u.isScalar = true := by
  cases h with
  | word | types => simp at hu
  | literal s c r l =>
    obtain rfl : u = .literal r l := by simpa using hu
    exact Or.inr ⟨rfl, rfl⟩
  | resource s c r v =>
    obtain rfl : u = .resource r v := by simpa using hu
    exact Or.inr ⟨rfl, rfl⟩
  | nested s c v property value =>
    obtain rfl : u = v := by simpa using hu
    exact Or.inl value
  | negation s v inner =>
    obtain rfl : u = v := by simpa using hu
    exact Or.inl inner
  | group s k ts full members =>
    exact Or.inl (members u hu)

theorem of_comparison {s : Span} {c : Comparison} {v : Term} (h : Settled (.comparison s c v)) :
    (∀ p ∈ c.property, p.IsSettled) ∧ (c.comparator = .equal → v.moment? = none) := by
  cases h with
  | literal _ _ r l property ranged => exact ⟨property, ranged⟩
  | resource _ _ r u property => exact ⟨property, fun _ => rfl⟩
  | nested _ _ _ property value => exact ⟨property, fun _ => value.moment?_eq_none⟩

theorem isWord {s : Span} {l : Literal} (h : Settled (.literal s l)) : l.IsWord := by
  cases h with
  | word _ _ word => exact word

end Settled

/-! ## Parts of settled terms -/

namespace IsKind

variable {t u w : Term}

/-- What is below a settled term is settled, or is the value of a comparison; and nothing is below what says
nothing, or below a value. -/
theorem child (h : u.IsKind Settled ∨ u.isScalar = true) (hw : w ∈ u.children) :
    Settled w ∨ u.isComparison = true ∧ w.isScalar = true := by
  cases u with
  | invalid | literal | resource => simp at hw
  | _ =>
    rcases h with hsettled | hscalar
    · exact (hsettled rfl).child hw
    · simp [isScalar] at hscalar

/-- The parts of a settled term are settled, or are values of comparisons. -/
theorem part (h : t.IsKind Settled) (hu : t.Part u) : u.IsKind Settled ∨ u.isScalar = true := by
  induction hu with
  | self => exact Or.inl h
  | child _ hw ih => exact (child ih hw).imp (fun hsettled _ => hsettled) And.right

theorem part_comparison {s : Span} {c : Comparison} {v : Term} (h : t.IsKind Settled)
    (hu : t.Part (.comparison s c v)) : Settled (.comparison s c v) :=
  (h.part hu).elim (fun hsettled => hsettled rfl) (by simp [isScalar])

theorem part_group {s : Span} {k : Connective} {ts : List Term} (h : t.IsKind Settled)
    (hu : t.Part (.group s k ts)) : Settled (.group s k ts) :=
  (h.part hu).elim (fun hsettled => hsettled rfl) (by simp [isScalar])

end IsKind

end Term

/-- Settled terms are joined to settled terms. -/
theorem closedUnderFusion_settled : ClosedUnderFusion Term.Settled where
  withSpan s h := h.withSpan s
  negation s h := .negation s _ h
  append k ha hb := by
    refine Term.append_of_groups (fun s k a b ha hb => ?_) (fun s s' k ts t hts ht => ?_) k ha hb
    · exact .group s k _ (by simp) (by simp [ha, hb])
    · cases hts with
      | group _ _ _ full members =>
        refine .group s k _ (by simp; omega) (List.forall_mem_append.2 ⟨members, ?_⟩)
        rw [List.forall_mem_singleton]
        exact ht

end DesktopSearch
