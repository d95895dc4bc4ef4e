import DesktopSearch.Proofs.Term.Basic
import DesktopSearch.Term.Optimize

/-!
# Normal terms

A term `IsNormal` if it says nothing, or if it is `Proper` : it holds a term that says nothing at most
as the value of a comparison, its groups have two or more members, none of them of the kind of the group
and no two of them the same, and no negation stands right below a negation and no optional part right
below an optional part.

`optimize_normal_form` : the normal form of every term is normal, and `optimize` leaves normal terms as
they are, spans included. The list of members goes through two steps on the way, and each has its
lemmas : what `spread` puts into a group is proper and of another kind, and `distinct` keeps members
only, no two of them the same.
-/

namespace DesktopSearch.Term

/-! ## The definition -/

/-- Whether the term is an optional part. -/
def isOptional : Term → Bool
  | optional .. => true
  | _ => false

/-- Whether the term is a group of kind `k`. -/
def isGroup (k : Connective) : Term → Bool
  | group _ l _ => l == k
  | _ => false

/-- Two terms differ in more than their spans. -/
def Differ (a b : Term) : Prop := a.same b = false

/-- A normal term that says something. -/
inductive Proper : Term → Prop
  | literal (s : Span) (l : Literal) : Proper (literal s l)
  | resource (s : Span) (u : Uri) : Proper (resource s u)
  | types (s : Span) (us : List Uri) : Proper (types s us)
  /-- The value of a comparison may say nothing. -/
  | existence (s : Span) (c : Comparison) (v : Term) (invalid : v.isValid = false) :
    Proper (comparison s c v)
  | comparison (s : Span) (c : Comparison) (v : Term) (value : Proper v) :
    Proper (comparison s c v)
  | negation (s : Span) (t : Term) (inner : Proper t) (single : t.isNegation = false) :
    Proper (negation s t)
  | optional (s : Span) (t : Term) (inner : Proper t) (single : t.isOptional = false) :
    Proper (optional s t)
  | group (s : Span) (k : Connective) (ts : List Term) (two : 2 ≤ ts.length)
    (members : ∀ t ∈ ts, Proper t) (flat : ∀ t ∈ ts, t.isGroup k = false)
    (distinct : ts.Pairwise Differ) : Proper (group s k ts)

/-- The term is in normal form. -/
def IsNormal (t : Term) : Prop := t.isValid = false ∨ t.Proper

theorem Proper.isValid {t : Term} (h : t.Proper) : t.isValid = true := by
  cases h <;> rfl

/-! ## Members that differ -/

/-- No term of a list is the same as another if all of them differ from it. -/
theorem any_same_eq_false_iff {seen : List Term} {t : Term} :
    seen.any (·.same t) = false ↔ ∀ u ∈ seen, u.Differ t := by
  rw [List.any_eq_false]
  exact forall₂_congr fun u _ => by rw [Differ, Bool.not_eq_true]

theorem mem_pushNew {seen : List Term} {t u : Term} (h : u ∈ pushNew seen t) : u ∈ seen ∨ u = t := by
  rw [pushNew] at h
  split at h
  · exact Or.inl h
  · simpa using h

/-- Adding only what is new keeps members apart. -/
theorem pairwise_pushNew {seen : List Term} (h : seen.Pairwise Differ) (t : Term) :
    (pushNew seen t).Pairwise Differ := by
  rw [pushNew]
  split
  · exact h
  · rename_i hnew
    have hnew := any_same_eq_false_iff.1 (Bool.eq_false_iff.2 hnew)
    exact List.pairwise_append.2 ⟨h, List.pairwise_singleton _ t, by simpa using hnew⟩

theorem mem_foldl_pushNew {ts seen : List Term} {u : Term} (h : u ∈ ts.foldl pushNew seen) :
    u ∈ seen ∨ u ∈ ts := by
  induction ts generalizing seen with
  | nil => exact Or.inl h
  | cons t ts ih =>
    rcases ih h with h | h
    · rcases mem_pushNew h with h | rfl
      · exact Or.inl h
      · exact Or.inr (by simp)
    · exact Or.inr (by simp [h])

theorem mem_of_mem_distinct {ts : List Term} {u : Term} (h : u ∈ distinct ts) : u ∈ ts := by
  simpa using mem_foldl_pushNew h

/-- The distinct members differ from each other. -/
theorem pairwise_distinct (ts : List Term) : (distinct ts).Pairwise Differ :=
  List.foldlRecOn ts pushNew List.Pairwise.nil fun _ h t _ => pairwise_pushNew h t

theorem pushNew_ne_nil {seen : List Term} (h : seen ≠ []) (t : Term) : pushNew seen t ≠ [] := by
  rw [pushNew]
  split
  · exact h
  · simp

theorem distinct_ne_nil {ts : List Term} (h : ts ≠ []) : distinct ts ≠ [] := by
  cases ts with
  | nil => contradiction
  | cons t ts =>
    have hfirst : pushNew [] t ≠ [] := by simp [pushNew]
    exact List.foldlRecOn (motive := (· ≠ [])) ts pushNew hfirst fun _ h u _ => pushNew_ne_nil h u

/-- Members that differ are all kept. -/
theorem distinct_eq_self {ts : List Term} (h : ts.Pairwise Differ) : distinct ts = ts := by
  have hfold : ∀ seen, (seen ++ ts).Pairwise Differ → ts.foldl pushNew seen = seen ++ ts := by
    clear h
    induction ts with
    | nil => simp
    | cons t ts ih =>
      intro seen h
      have hnew : seen.any (·.same t) = false :=
        any_same_eq_false_iff.2 fun u hu => (List.pairwise_append.1 h).2.2 u hu t (by simp)
      have hpush : pushNew seen t = seen ++ [t] := by rw [pushNew, hnew]; rfl
      rw [List.foldl_cons, hpush, ih _ (by simpa using h), List.append_assoc, List.singleton_append]
  exact hfold [] h

/-! ## The steps to the normal form -/

/-- Invalid terms contribute nothing to a group. -/
theorem spread_of_not_isValid (k : Connective) {t : Term} (h : t.isValid = false) :
    spread k t = [] := by
  cases t with
  | invalid s => rfl
  | _ => simp [isValid] at h

/-- A term that is no group of this kind contributes itself. -/
theorem spread_eq_singleton {k : Connective} {t : Term} (h : t.isValid = true)
    (hk : t.isGroup k = false) : spread k t = [t] := by
  cases t with
  | invalid s => simp [isValid] at h
  | group s l ms =>
    rw [spread, if_neg]
    simpa [isGroup] using hk
  | _ => rfl

/-- A proper group puts its own members into a group of its kind. -/
theorem Proper.spread_of_isGroup {k : Connective} {t : Term} (h : t.Proper)
    (hk : t.isGroup k = true) : ∀ u ∈ spread k t, u.Proper ∧ u.isGroup k = false := by
  cases h with
  | group s l ms two members flat hd =>
    obtain rfl : l = k := by simpa [isGroup] using hk
    rw [spread, if_pos rfl]
    exact fun u hu => ⟨members u hu, flat u hu⟩
  | _ => simp [isGroup] at hk

/-- What a normal term puts into a group is proper and of another kind. -/
theorem mem_spread {k : Connective} {t u : Term} (ht : t.IsNormal) (hu : u ∈ spread k t) :
    u.Proper ∧ u.isGroup k = false := by
  rcases ht with ht | ht
  · simp [spread_of_not_isValid k ht] at hu
  · cases hk : t.isGroup k with
    | true => exact ht.spread_of_isGroup hk u hu
    | false =>
      rw [spread_eq_singleton ht.isValid hk, List.mem_singleton] at hu
      exact hu ▸ ⟨ht, hk⟩

/-- Proper members that differ make a normal group, or what is left of one. -/
theorem isNormal_regroup (s : Span) (k : Connective) {ts : List Term}
    (hts : ∀ t ∈ ts, t.Proper ∧ t.isGroup k = false) (hd : ts.Pairwise Differ) :
    (regroup s k ts).IsNormal := by
  match ts with
  | [] => exact Or.inl rfl
  | [t] => exact Or.inr (hts t (by simp)).1
  | t :: u :: ts =>
    exact Or.inr (.group s k _ (by simp) (fun v hv => (hts v hv).1) (fun v hv => (hts v hv).2) hd)

/-- Negating a normal term leaves no double negation. -/
theorem isNormal_negateNormal (s : Span) {t : Term} (h : t.IsNormal) :
    (negateNormal s t).IsNormal := by
  rcases h with h | h
  · cases t with
    | invalid _ => exact Or.inl rfl
    | _ => simp [Term.isValid] at h
  · cases t with
    | invalid _ => exact Or.inl rfl
    | negation r u =>
      cases h with
      | negation _ _ hu _ => exact Or.inr hu
    | _ => exact Or.inr (.negation s _ h rfl)

theorem isNormal_optionalNormal (s : Span) {t : Term} (h : t.IsNormal) :
    (optionalNormal s t).IsNormal := by
  rcases h with h | h
  · cases t with
    | invalid _ => exact Or.inl rfl
    | _ => simp [Term.isValid] at h
  · cases t with
    | invalid _ => exact Or.inl rfl
    | optional r u => exact Or.inr h
    | _ => exact Or.inr (.optional s _ h rfl)

/-- The optimized term is normal. -/
theorem isNormal_optimize (t : Term) : t.optimize.IsNormal := by
  induction t with
  | invalid s => exact Or.inl rfl
  | literal s l => exact Or.inr (.literal s l)
  | resource s u => exact Or.inr (.resource s u)
  | types s us => exact Or.inr (.types s us)
  | comparison s c v ih =>
    rw [optimize]
    rcases ih with h | h
    · exact Or.inr (.existence s c _ h)
    · exact Or.inr (.comparison s c _ h)
  | negation s t ih => exact isNormal_negateNormal s ih
  | optional s t ih => exact isNormal_optionalNormal s ih
  | group s k ts ih =>
    rw [optimize, optimizeAll_eq_map]
    refine isNormal_regroup s k (fun t ht => ?_) (pairwise_distinct _)
    obtain ⟨u, hu, ht⟩ := List.mem_flatMap.1 (mem_of_mem_distinct ht)
    obtain ⟨v, hv, rfl⟩ := List.mem_map.1 hu
    exact mem_spread (ih v hv) ht

/-! ## Normal terms stay as they are -/

/-- Members that are proper and no groups of this kind are contributed as they are. -/
theorem flatMap_spread_eq_self {k : Connective} {ts : List Term} (h : ∀ t ∈ ts, t.Proper)
    (hk : ∀ t ∈ ts, t.isGroup k = false) : ts.flatMap (spread k) = ts := by
  induction ts with
  | nil => rfl
  | cons t ts ih =>
    rw [List.flatMap_cons, spread_eq_singleton (h t (by simp)).isValid (hk t (by simp)),
      ih (fun u hu => h u (by simp [hu])) fun u hu => hk u (by simp [hu]), List.singleton_append]

theorem regroup_eq_group (s : Span) (k : Connective) {ts : List Term} (h : 2 ≤ ts.length) :
    regroup s k ts = group s k ts := by
  match ts with
  | [] | [_] => simp at h
  | _ :: _ :: _ => rfl

theorem negateNormal_eq_negation (s : Span) {t : Term} (h : t.isValid = true)
    (hn : t.isNegation = false) : negateNormal s t = negation s t := by
  cases t with
  | invalid _ => simp [isValid] at h
  | negation _ _ => simp [isNegation] at hn
  | _ => rfl

theorem optionalNormal_eq_optional (s : Span) {t : Term} (h : t.isValid = true)
    (ho : t.isOptional = false) : optionalNormal s t = optional s t := by
  cases t with
  | invalid _ => simp [isValid] at h
  | optional _ _ => simp [isOptional] at ho
  | _ => rfl

theorem optimize_of_not_isValid {t : Term} (h : t.isValid = false) : t.optimize = t := by
  cases t with
  | invalid s => rfl
  | _ => simp [isValid] at h

/-- A proper term is optimized already. -/
theorem Proper.optimize_eq_self {t : Term} (h : t.Proper) : t.optimize = t := by
  induction h with
  | literal s l => rfl
  | resource s u => rfl
  | types s us => rfl
  | existence s c v hv => rw [optimize, optimize_of_not_isValid hv]
  | comparison s c v _ ih => rw [optimize, ih]
  | negation s t ht hn ih => rw [optimize, ih, negateNormal_eq_negation s ht.isValid hn]
  | optional s t ht ho ih => rw [optimize, ih, optionalNormal_eq_optional s ht.isValid ho]
  | group s k ts two members flat hd ih =>
    have hts : ts.map optimize = ts := by
      conv_rhs => rw [← List.map_id ts]
      exact List.map_congr_left ih
    rw [optimize, optimizeAll_eq_map, hts, flatMap_spread_eq_self members flat, distinct_eq_self hd,
      regroup_eq_group s k two]

theorem IsNormal.optimize_eq_self {t : Term} (h : t.IsNormal) : t.optimize = t :=
  h.elim optimize_of_not_isValid Proper.optimize_eq_self

/-! ## Negating twice -/

/-- Negating a normal term twice changes its span at most. -/
theorem same_negateNormal_negateNormal (r s : Span) {t : Term} (h : t.IsNormal) :
    (negateNormal r (negateNormal s t)).same t = true := by
  cases t with
  | invalid _ => rfl
  | negation q u =>
    rcases h with h | h
    · simp [isValid] at h
    · cases h with
      | negation _ _ hu hn =>
        rw [negateNormal, negateNormal_eq_negation r hu.isValid hn]
        exact same_refl u
  | _ => exact same_refl _

/-- The normal form of every term is normal, and a normal term is its own normal form down to its spans;
so taking the normal form twice is taking it once, and two negations cancel. -/
theorem optimize_normal_form :
    (∀ t : Term, t.optimize.IsNormal) ∧ (∀ t : Term, t.IsNormal → t.optimize = t) ∧
      (∀ t : Term, t.optimize.optimize = t.optimize) ∧
      ∀ (r s : Span) (t : Term), (negation r (negation s t)).optimize.same t.optimize = true := by
  refine ⟨isNormal_optimize, fun t h => h.optimize_eq_self,
    fun t => (isNormal_optimize t).optimize_eq_self, fun r s t => ?_⟩
  rw [optimize, optimize]
  exact same_negateNormal_negateNormal r s (isNormal_optimize t)

/-- Anything but a resource and what has some title, read at the end of an input. -/
def neitherResourceNorTitled : Term :=
  negation ⟨2, 9⟩ (group ⟨3, 8⟩ .or
    [resource ⟨3, 2⟩ ⟨"urn:a"⟩, comparison ⟨6, 5⟩ { property := some ⟨"urn:title"⟩ } nothing])

theorem optimize_neitherResourceNorTitled : neitherResourceNorTitled.IsNormal ∧
    neitherResourceNorTitled.optimize = neitherResourceNorTitled := by
  have h : neitherResourceNorTitled.IsNormal := by
    refine Or.inr (.negation _ _ (.group _ _ _ (Nat.le_refl 2) ?_ ?_ ?_) rfl)
    · simp only [List.forall_mem_cons, List.not_mem_nil, false_imp_iff, implies_true, and_true]
      exact ⟨.resource _ _, .existence _ _ _ rfl⟩
    · simp [isGroup]
    · simp [Differ, same]
  exact ⟨h, optimize_normal_form.2.1 _ h⟩

end DesktopSearch.Term
