import DesktopSearch.Ontology.Basic
import Mathlib.Logic.Relation

/-!
# Subclasses

A class `IsBelow` another one when a chain of subclass facts leads up to it. The search of `leadsTo` finds
such chains only (`isBelow_of_leadsTo`), so where every fact leads to a class of smaller `depth`, so does
every step to a superclass, and no class is below itself.

The search overlooks no chain either, on whatever facts. Nothing above a visited class gets lost : each of
its parents has been visited too, or is pending, and none of them is what is searched for (`Explored`). When
nothing is pending any more, the visited classes therefore lead to each other only. So being a subclass is
being below, whatever facts have been stated and in whatever order (`isSubclassOf_addSubclasses`).
-/

namespace DesktopSearch.Ontology.Table

/-- One or more facts lead up from a class to another one. -/
def IsBelow (facts : List (Uri × Uri)) : Uri → Uri → Prop :=
  Relation.TransGen fun child parent => (child, parent) ∈ facts

variable {facts : List (Uri × Uri)}

theorem mem_parentsOf {c p : Uri} : p ∈ parentsOf c facts ↔ (c, p) ∈ facts := by
  simp [parentsOf]

/-! ## What is found -/

/-- What is found is above one of the pending classes. -/
theorem isBelow_of_leadsTo {target : Uri} {visited pending : List Uri}
    (h : leadsTo target facts visited pending = true) : ∃ c ∈ pending, IsBelow facts c target := by
  induction visited, pending using leadsTo.induct facts with
  | case1 visited => simp [leadsTo] at h
  | case2 visited c rest hc ih =>
    rw [leadsTo, if_pos hc] at h
    obtain ⟨d, hd, hbelow⟩ := ih h
    exact ⟨d, List.mem_cons_of_mem c hd, hbelow⟩
  | case3 visited c rest hc ih =>
    rw [leadsTo, if_neg hc, Bool.or_eq_true, List.contains_iff_mem] at h
    rcases h with h | h
    · exact ⟨c, List.mem_cons_self, .single (mem_parentsOf.1 h)⟩
    · obtain ⟨d, hd, hbelow⟩ := ih h
      rcases List.mem_append.1 hd with hd | hd
      · exact ⟨c, List.mem_cons_self, .head (mem_parentsOf.1 hd) hbelow⟩
      · exact ⟨d, List.mem_cons_of_mem c hd, hbelow⟩

theorem isBelow_of_isSubclassOf {t : Table} {child parent : Uri}
    (h : t.isSubclassOf child parent = true) : IsBelow t.parents child parent := by
  obtain ⟨c, hc, hbelow⟩ := isBelow_of_leadsTo h
  exact List.mem_singleton.1 hc ▸ hbelow

/-- A measure that every fact makes smaller is smaller for every superclass. -/
theorem IsBelow.depth_lt {depth : Uri → Nat} (hfacts : ∀ f ∈ facts, depth f.2 < depth f.1)
    {child parent : Uri} (h : IsBelow facts child parent) : depth parent < depth child := by
  induction h with
  | single hmem => exact hfacts _ hmem
  | tail _ hmem ih => exact Nat.lt_trans (hfacts _ hmem) ih

/-! ## What is overlooked -/

/-- The parents of visited classes have been visited or are pending, and the target is none of them. -/
def Explored (target : Uri) (facts : List (Uri × Uri)) (visited pending : List Uri) : Prop :=
  ∀ c ∈ visited, ∀ p, (c, p) ∈ facts → p ≠ target ∧ (p ∈ visited ∨ p ∈ pending)

variable {target c d : Uri} {visited rest : List Uri}

/-- A class that has been visited need not be pending. -/
theorem seen_skip (hc : c ∈ visited) (hd : d ∈ visited ∨ d ∈ c :: rest) :
    d ∈ visited ∨ d ∈ rest := by
  rcases hd with hd | hd
  · exact Or.inl hd
  · rcases List.mem_cons.1 hd with rfl | hd
    · exact Or.inl hc
    · exact Or.inr hd

/-- A class is visited by making its parents pending. -/
theorem seen_visit (facts : List (Uri × Uri)) (hd : d ∈ visited ∨ d ∈ c :: rest) :
    d ∈ c :: visited ∨ d ∈ parentsOf c facts ++ rest := by
  rcases hd with hd | hd
  · exact Or.inl (List.mem_cons_of_mem c hd)
  · rcases List.mem_cons.1 hd with rfl | hd
    · exact Or.inl List.mem_cons_self
    · exact Or.inr (List.mem_append_right _ hd)

theorem explored_nil (pending : List Uri) : Explored target facts [] pending := by
  simp [Explored]

theorem Explored.skip (h : Explored target facts visited (c :: rest)) (hc : c ∈ visited) :
    Explored target facts visited rest := by
  intro d hd p hp
  obtain ⟨htarget, hseen⟩ := h d hd p hp
  exact ⟨htarget, seen_skip hc hseen⟩

theorem Explored.visit (h : Explored target facts visited (c :: rest))
    (hc : target ∉ parentsOf c facts) :
    Explored target facts (c :: visited) (parentsOf c facts ++ rest) := by
  intro d hd p hp
  rcases List.mem_cons.1 hd with rfl | hd
  · have hparent := mem_parentsOf.2 hp
    exact ⟨fun htarget => hc (htarget ▸ hparent), Or.inr (List.mem_append_left rest hparent)⟩
  · obtain ⟨htarget, hseen⟩ := h d hd p hp
    exact ⟨htarget, seen_visit facts hseen⟩

/-- When nothing is pending, the target is above no class that has been visited. -/
theorem Explored.not_isBelow (h : Explored target facts visited []) (hc : c ∈ visited) :
    ¬ IsBelow facts c target := by
  intro hbelow
  induction hbelow using Relation.TransGen.head_induction_on with
  | single hmem => exact (h _ hc _ hmem).1 rfl
  | head hmem _ ih =>
    rcases (h _ hc _ hmem).2 with hd | hd
    · exact ih hd
    · exact List.not_mem_nil hd

/-- Where the search fails, the target is above none of the classes that it has come to. -/
theorem Explored.not_isBelow_of_leadsTo {pending : List Uri}
    (h : Explored target facts visited pending)
    (hfails : leadsTo target facts visited pending = false) :
    ∀ c, c ∈ visited ∨ c ∈ pending → ¬ IsBelow facts c target := by
  induction visited, pending using leadsTo.induct facts with
  | case1 visited =>
    rintro d (hd | hd)
    · exact h.not_isBelow hd
    · contradiction
  | case2 visited c rest hc ih =>
    rw [leadsTo, if_pos hc] at hfails
    have hc : c ∈ visited := List.contains_iff_mem.1 hc
    exact fun d hd => ih (h.skip hc) hfails d (seen_skip hc hd)
  | case3 visited c rest hc ih =>
    rw [leadsTo, if_neg hc, Bool.or_eq_false_iff] at hfails
    have htarget : target ∉ parentsOf c facts := by simpa using hfails.1
    exact fun d hd => ih (h.visit htarget) hfails.2 d (seen_visit facts hd)

/-- The superclasses of a class are the classes that it is below. -/
theorem isSubclassOf_iff_isBelow {t : Table} {child parent : Uri} :
    t.isSubclassOf child parent = true ↔ IsBelow t.parents child parent := by
  refine ⟨isBelow_of_isSubclassOf, fun hbelow => ?_⟩
  cases hfound : t.isSubclassOf child parent with
  | true => rfl
  | false =>
    refine absurd hbelow ((explored_nil [child]).not_isBelow_of_leadsTo hfound child ?_)
    exact Or.inr (List.mem_singleton_self child)

/-! ## Stated facts -/

/-- States subclass facts one after the other. -/
def addSubclasses (t : Table) (stated : List (Uri × Uri)) : Table :=
  stated.foldl (fun t f => t.addSubclass f.1 f.2) t

theorem parents_addSubclasses (t : Table) (stated : List (Uri × Uri)) :
    (t.addSubclasses stated).parents = stated.reverse ++ t.parents := by
  induction stated generalizing t with
  | nil => rfl
  | cons f stated ih =>
    change ((t.addSubclass f.1 f.2).addSubclasses stated).parents = _
    rw [ih, List.reverse_cons, List.append_assoc]
    rfl

/-- After any subclass facts have been stated, repeated ones, cycles and several parents of one class among
them, a class is a subclass of another one exactly if a chain of one or more facts leads from it to the
other, each of them stated or known before. -/
theorem isSubclassOf_addSubclasses (t : Table) (stated : List (Uri × Uri)) (child parent : Uri) :
    (t.addSubclasses stated).toOntology.isSubclassOf child parent = true ↔
      Relation.TransGen (fun c p => (c, p) ∈ stated ∨ (c, p) ∈ t.parents) child parent := by
  change (t.addSubclasses stated).isSubclassOf child parent = true ↔ _
  have hfacts (c p : Uri) :
      (c, p) ∈ (t.addSubclasses stated).parents ↔ (c, p) ∈ stated ∨ (c, p) ∈ t.parents := by
    rw [parents_addSubclasses, List.mem_append, List.mem_reverse]
  rw [isSubclassOf_iff_isBelow, IsBelow]
  simp only [hfacts]

end DesktopSearch.Ontology.Table
