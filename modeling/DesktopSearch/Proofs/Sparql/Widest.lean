import DesktopSearch.Ontology.Desktop
import DesktopSearch.Proofs.Ontology.Subclass
import DesktopSearch.Proofs.Sparql.Compilation
import DesktopSearch.Proofs.Sparql.Preparation
import Mathlib.Order.Preorder.Finite

/-!
# Alternative types

Of the types among alternatives those are kept that are no subclass of another one. Being a subclass is
transitive, so above every type there is one that has nothing but its own subclasses above it. It is kept
unless it is `Circular`, that is, unless another listed type and it are subclasses of each other : of such
types each makes way for the other, and neither is kept. A listed type is therefore covered by a kept one
exactly if it is within one from which no circular type is reached (`exists_widest_iff`).
-/

namespace DesktopSearch

namespace Ontology

/-- The superclasses of a superclass are superclasses. -/
def IsTransitive (o : Ontology) : Prop :=
  ∀ u v w, o.isSubclassOf u v = true → o.isSubclassOf v w = true → o.isSubclassOf u w = true

/-- A class is another one, or a subclass of it. -/
def IsWithin (o : Ontology) (u v : Uri) : Prop := u = v ∨ o.isSubclassOf u v = true

/-- A class and another one of the list are subclasses of each other. -/
def Circular (o : Ontology) (types : List Uri) (u : Uri) : Prop :=
  ∃ v ∈ types, v ≠ u ∧ o.isSubclassOf u v = true ∧ o.isSubclassOf v u = true

theorem Table.isTransitive (t : Table) : t.toOntology.IsTransitive := fun _ _ _ huv hvw =>
  isSubclassOf_iff_isBelow.2
    ((isSubclassOf_iff_isBelow.1 huv).trans (isSubclassOf_iff_isBelow.1 hvw))

variable {o : Ontology} {u v w : Uri}

theorem IsTransitive.isWithin_trans (h : o.IsTransitive) (huv : o.IsWithin u v)
    (hvw : o.IsWithin v w) : o.IsWithin u w := by
  rcases huv with rfl | huv
  · exact hvw
  · rcases hvw with rfl | hvw
    · exact Or.inr huv
    · exact Or.inr (h u v w huv hvw)

/-- Every listed class is within one whose listed superclasses are within it. -/
theorem IsTransitive.exists_topmost (h : o.IsTransitive) {types : List Uri} (hu : u ∈ types) :
    ∃ v ∈ types, o.IsWithin u v ∧ ∀ w ∈ types, o.IsWithin v w → o.IsWithin w v := by
  let order : Preorder Uri :=
    { le := o.IsWithin, le_refl := fun _ => Or.inl rfl, le_trans := fun _ _ _ => h.isWithin_trans }
  obtain ⟨v, huv, hv, htop⟩ := (List.finite_toSet types).exists_le_maximal hu
  exact ⟨v, hv, huv, fun w hw hvw => htop hw hvw⟩

end Ontology

namespace Sparql

open Ontology Vocabulary

variable {o : Ontology} {types : List Uri} {u v : Uri}

/-! ## Kept types -/

/-- Whatever listed class a kept type is within, it is that class. -/
theorem eq_of_mem_widest (hu : u ∈ widest o types) (hv : v ∈ types) (huv : o.IsWithin u v) : v = u := by
  rcases huv with rfl | huv
  · rfl
  · by_contra hne
    rw [(mem_widest.1 hu).2 v hv hne] at huv
    contradiction

/-- A circular type is not kept. -/
theorem not_circular_of_mem_widest (hu : u ∈ widest o types) : ¬ o.Circular types u := by
  rintro ⟨v, hv, hne, huv, -⟩
  exact hne (eq_of_mem_widest hu hv (Or.inr huv))

/-- A type is kept if all that is above it is below it, and it is not circular. -/
theorem mem_widest_of_topmost (hu : u ∈ types) (htop : ∀ v ∈ types, o.IsWithin u v → o.IsWithin v u)
    (hcircular : ¬ o.Circular types u) : u ∈ widest o types := by
  refine mem_widest.2 ⟨hu, fun v hv hne => ?_⟩
  by_contra hsub
  rw [Bool.not_eq_false] at hsub
  rcases htop v hv (Or.inr hsub) with heq | hback
  · exact hne heq
  · exact hcircular ⟨v, hv, hne, hsub, hback⟩

/-- A class is covered by a kept type exactly if it is within a listed one from which no circular type is
reached. -/
theorem exists_widest_iff (h : o.IsTransitive) (u : Uri) : (∃ w ∈ widest o types, o.IsWithin u w) ↔
    ∃ w ∈ types, o.IsWithin u w ∧ ∀ v ∈ types, o.IsWithin w v → ¬ o.Circular types v := by
  constructor
  · rintro ⟨w, hw, huw⟩
    refine ⟨w, (mem_widest.1 hw).1, huw, fun v hv hwv => ?_⟩
    rw [eq_of_mem_widest hw hv hwv]
    exact not_circular_of_mem_widest hw
  · rintro ⟨w, hw, huw, hfree⟩
    obtain ⟨v, hv, hwv, htop⟩ := h.exists_topmost hw
    exact ⟨v, mem_widest_of_topmost hv htop (hfree v hv hwv), h.isWithin_trans huw hwv⟩

/-! ## Alternatives -/

/-- The types among alternatives. -/
def typesAmong (ts : List Term) : List Uri := (ts.filterMap Term.types?).flatten

/-- The restriction to types, if there are any. -/
def typesTerm (types : List Uri) : List Term :=
  if types.isEmpty then [] else [.types .empty types]

theorem refine_group_or (s : Span) (ts : List Term) : refine o (.group s .or ts) =
    alternatives ((ts.filter (·.types?.isNone)).map (refine o) ++
      typesTerm (widest o (typesAmong ts))) := by
  rw [refine, refineOthers_eq]
  rfl

/-- Alternatives are refined, whatever subclass facts have been stated, to those of them that are no types, in
their order, and one restriction to the types that are kept. These are listed types, and none is a subclass
of another one. A listed type is covered by one of them exactly if it is within a listed type from which no
circular one is reached; so all are covered if no two of them are subclasses of each other. -/
theorem refine_alternatives (t : Table) (stated : List (Uri × Uri)) (s : Span) (ts : List Term) :
    let o := (t.addSubclasses stated).toOntology
    let types := typesAmong ts
    ∃ kept, refine o (.group s .or ts) =
        alternatives ((ts.filter (·.types?.isNone)).map (refine o) ++ typesTerm kept) ∧
      kept ⊆ types ∧ (∀ u ∈ kept, ∀ v ∈ kept, u ≠ v → o.isSubclassOf u v = false) ∧
      ∀ u ∈ types, (∃ w ∈ kept, o.IsWithin u w) ↔
        ∃ w ∈ types, o.IsWithin u w ∧ ∀ v ∈ types, o.IsWithin w v → ¬ o.Circular types v := by
  intro o types
  refine ⟨widest o types, refine_group_or s ts, fun u hu => (mem_widest.1 hu).1, ?_, fun u _ => ?_⟩
  · intro u hu v hv hne
    exact (mem_widest.1 hu).2 v (mem_widest.1 hv).1 (Ne.symm hne)
  · exact exists_widest_iff (Table.isTransitive _) u

/-- Images in the words of two vocabularies, each stated to be a subclass of the other : neither is kept, so
the alternatives say nothing and the query is not expressed. -/
theorem refine_alternatives_circular :
    let foafImage : Uri := ⟨"http://xmlns.com/foaf/0.1/Image"⟩
    let o := (Table.desktop.addSubclasses [(Nfo.image, foafImage), (foafImage, Nfo.image)]).toOntology
    let t := Term.oneOf [.types .empty [Nfo.image], .types .empty [foafImage]]
    refine o t = Term.nothing ∧
      compile o (.ofTerm t) { noResultRestrictions := true } = "" ∧
      ¬ ∃ kept, refine o t = alternatives (typesTerm kept) ∧
        ∀ u ∈ [Nfo.image, foafImage], ∃ w ∈ kept, o.IsWithin u w := by
  intro foafImage o t
  have hsub {u v : Uri} (h : (u, v) ∈ [(foafImage, Nfo.image), (Nfo.image, foafImage)]) :
      o.isSubclassOf u v = true :=
    Table.isSubclassOf_iff_isBelow.2 (.single (List.mem_append_left desktopParents h))
  have hwidest : widest o [Nfo.image, foafImage] = [] := by
    refine List.eq_nil_iff_forall_not_mem.2 fun u hu => not_circular_of_mem_widest hu ?_
    have hmem := (mem_widest.1 hu).1
    simp only [List.mem_cons, List.not_mem_nil, or_false] at hmem
    rcases hmem with rfl | rfl
    · exact ⟨foafImage, by simp, by decide, hsub (by simp), hsub (by simp)⟩
    · exact ⟨Nfo.image, by simp, by decide, hsub (by simp), hsub (by simp)⟩
  have hrefine : refine o t = Term.nothing := by
    change refine o (.group .empty .or _) = _
    rw [refine_group_or]
    change alternatives (typesTerm (widest o [Nfo.image, foafImage])) = _
    rw [hwidest]
    rfl
  have hprepared : prepared o (.ofTerm t) false = Term.nothing := by
    change anchor (refine o t) = _
    rw [hrefine]
    rfl
  refine ⟨hrefine, compile_of_not_isValid (congrArg Term.isValid hprepared), ?_⟩
  rintro ⟨kept, hkept, hcovered⟩
  rw [hrefine] at hkept
  cases kept with
  | nil => simpa using hcovered Nfo.image (by simp)
  | cons u us => exact absurd hkept (by simp [typesTerm, alternatives, Term.nothing])

end Sparql

end DesktopSearch
