import DesktopSearch.Proofs.Term.NormalForm
import DesktopSearch.Sparql.Preparation
import Mathlib.Data.List.MinMax

/-!
# Merging types, member by member

The functions that prepare the members of a group are maps over the members that they are meant for.
Merging types leaves at least one of them wherever the classes form a hierarchy, that is, wherever no
class is above itself : a class at the least depth has no superclass in the list.
-/

namespace DesktopSearch

/-- Superclasses are less deep, for some measure of depth. -/
def Ontology.IsHierarchy (o : Ontology) : Prop :=
  ∃ depth : Uri → Nat, ∀ child parent, o.isSubclassOf child parent = true →
    depth parent < depth child

namespace Sparql

variable {o : Ontology}

/-! ## Merged types -/

/-- Types are added that are not there yet, and none gets lost. -/
theorem mem_foldl_pushType {types seen : List Uri} {u : Uri} : u ∈ types.foldl
      (fun seen t => if seen.contains t then seen else seen ++ [t]) seen ↔ u ∈ seen ∨ u ∈ types := by
  induction types generalizing seen with
  | nil => simp
  | cons t types ih =>
    rw [List.foldl_cons, ih]
    by_cases ht : t ∈ seen
    · have hu : u = t → u ∈ seen := fun h => h ▸ ht
      simp only [List.contains_iff_mem, ht, if_true, List.mem_cons]
      tauto
    · simp only [List.contains_iff_mem, ht, if_false, List.mem_append, List.mem_cons,
        List.not_mem_nil, or_false]
      tauto

/-- The widest types are those that are below no other. -/
theorem mem_widest {types : List Uri} {u : Uri} : u ∈ widest o types ↔
    u ∈ types ∧ ∀ v ∈ types, v ≠ u → o.isSubclassOf u v = false := by
  rw [widest, mem_foldl_pushType]
  simp

/-- Some type is kept. -/
theorem widest_ne_nil (ho : o.IsHierarchy) {types : List Uri} (h : types ≠ []) :
    widest o types ≠ [] := by
  obtain ⟨depth, hdepth⟩ := ho
  obtain ⟨u, hu, hleast⟩ : ∃ u ∈ types, ∀ v ∈ types, depth u ≤ depth v := by
    cases hmin : types.argmin depth with
    | none => exact absurd (List.argmin_eq_none.1 hmin) h
    | some u => exact ⟨u, List.argmin_mem hmin, fun v hv => List.le_of_mem_argmin hv hmin⟩
  refine List.ne_nil_of_mem (mem_widest.2 ⟨hu, fun v hv _ => ?_⟩)
  by_contra hsub
  have := hdepth u v (by simpa using hsub)
  exact absurd (hleast v hv) (Nat.not_le_of_lt this)

/-! ## Members -/

theorem refineWhere_eq (p : Term → Bool) (ts : List Term) :
    refineWhere o p ts = (ts.filter p).map (refine o) := by
  induction ts with
  | nil => rfl
  | cons t ts ih =>
    rw [refineWhere, ih, List.filter_cons]
    split <;> rfl

theorem refineOthers_eq (ts : List Term) :
    refineOthers o ts = (ts.filter (·.types?.isNone)).map (refine o) := by
  induction ts with
  | nil => rfl
  | cons t ts ih =>
    rw [refineOthers, ih, List.filter_cons]
    cases t.types? <;> rfl

/-- The members that are refined apart from the others are those that the test picks. -/
theorem mem_refineWhere {p : Term → Bool} {ts : List Term} {u : Term} :
    u ∈ refineWhere o p ts ↔ ∃ t ∈ ts, p t = true ∧ refine o t = u := by
  simp only [refineWhere_eq, List.mem_map, List.mem_filter, and_assoc]

theorem mem_refineOthers {ts : List Term} {u : Term} :
    u ∈ refineOthers o ts ↔ ∃ t ∈ ts, t.types? = none ∧ refine o t = u := by
  simp only [refineOthers_eq, List.mem_map, List.mem_filter, Option.isNone_iff_eq_none, and_assoc]

/-- The members of a conjunction are refined one by one. -/
theorem mem_refineNamed {ts : List Term} {u : Term} :
    u ∈ refineWhere o isNamed ts ++ refineWhere o (!isNamed ·) ts ↔
      ∃ t ∈ ts, refine o t = u := by
  rw [List.mem_append, mem_refineWhere, mem_refineWhere]
  constructor
  · rintro (⟨t, ht, -, hu⟩ | ⟨t, ht, -, hu⟩)
    · exact ⟨t, ht, hu⟩
    · exact ⟨t, ht, hu⟩
  · rintro ⟨t, ht, hu⟩
    cases hn : isNamed t with
    | true => exact Or.inl ⟨t, ht, hn, hu⟩
    | false => exact Or.inr ⟨t, ht, by simp [hn], hu⟩

theorem anchorAll_eq (ts : List Term) : anchorAll ts = ts.map anchor := by
  induction ts with
  | nil => rfl
  | cons t ts ih => rw [anchorAll, ih, List.map_cons]

/-- The negated members of a conjunction stay as they are, and all others are anchored. -/
theorem anchorMembers_eq (ts : List Term) :
    anchorMembers ts = ts.map fun t => if t.isNegation then t else anchor t := by
  induction ts with
  | nil => rfl
  | cons t ts ih => rw [anchorMembers, ih, List.map_cons]

theorem anchorMembers_append (ts us : List Term) :
    anchorMembers (ts ++ us) = anchorMembers ts ++ anchorMembers us := by
  rw [anchorMembers_eq, List.map_append, ← anchorMembers_eq, ← anchorMembers_eq]

/-- Anchoring keeps a term valid. -/
theorem isValid_anchor {t : Term} (h : t.isValid = true) : (anchor t).isValid = true := by
  cases t with
  | invalid s => simp [Term.isValid] at h
  | group s k ts => cases k <;> rfl
  | _ => rfl

end Sparql

end DesktopSearch
