import DesktopSearch.Proofs.Term.Basic
import DesktopSearch.Term.Operators
import DesktopSearch.Term.Optimize

/-!
# The meaning of terms

An `Interpretation` gives truth values to literals, resources and types, and says how comparisons and
optional parts work on what is below them; nothing is known about it but that an optional part of an
optional part is one optional part. The `meaning` of a term under it is a truth value, or none: a term
that says nothing has no meaning, and a group is about those of its members that have one.

`meaning_optimize` : the normal form of a term has the meaning of the term under every interpretation.
The meaning of a group is the `merge` of the meanings of its members (`Connective.ofValues_append`), an
operation that is associative and idempotent and has no meaning as its unit; so members may be spread
out (`merged_spread`) and left out when they repeat an earlier one (`merged_distinct`).
-/

namespace DesktopSearch

/-! ## Truth values that may be missing -/

namespace Connective

/-- Two truth values joined. -/
def apply : Connective → Bool → Bool → Bool
  | and => Bool.and
  | or => Bool.or

/-- The conjunction or disjunction of some truth values, none if there are no values. -/
def ofValues (k : Connective) : List Bool → Option Bool
  | [] => none
  | b :: bs =>
    match k with
    | and => some ((b :: bs).all id)
    | or => some ((b :: bs).any id)

/-- Two truth values joined, either of which may be missing. -/
def merge (k : Connective) : Option Bool → Option Bool → Option Bool
  | none, b => b
  | some a, none => some a
  | some a, some b => some (k.apply a b)

@[simp] theorem merge_none (k : Connective) (a : Option Bool) : k.merge a none = a := by
  cases a <;> rfl

theorem merge_assoc (k : Connective) (a b c : Option Bool) :
    k.merge (k.merge a b) c = k.merge a (k.merge b c) := by
  cases a <;> cases b <;> cases c <;> cases k <;> simp [merge, apply, Bool.and_assoc, Bool.or_assoc]

theorem merge_comm (k : Connective) (a b : Option Bool) : k.merge a b = k.merge b a := by
  cases a <;> cases b <;> cases k <;> simp [merge, apply, Bool.and_comm, Bool.or_comm]

theorem merge_self (k : Connective) (a : Option Bool) : k.merge a a = a := by
  cases a <;> cases k <;> simp [merge, apply]

theorem ofValues_cons (k : Connective) (b : Bool) (bs : List Bool) :
    k.ofValues (b :: bs) = k.merge (some b) (k.ofValues bs) := by
  cases bs <;> cases k <;> simp [ofValues, merge, apply]

theorem ofValues_append (k : Connective) (bs cs : List Bool) :
    k.ofValues (bs ++ cs) = k.merge (k.ofValues bs) (k.ofValues cs) := by
  induction bs with
  | nil => rfl
  | cons b bs ih => rw [List.cons_append, ofValues_cons, ih, ofValues_cons, merge_assoc]

theorem ofValues_toList (k : Connective) (a : Option Bool) : k.ofValues a.toList = a := by
  cases a <;> cases k <;> simp [ofValues]

end Connective

/-! ## Interpretations -/

/-- What the parts of terms mean. A comparison may depend in any way on its fields and on what the term
below it means, if that means anything. -/
structure Interpretation where
  literal : Literal → Bool
  resource : Uri → Bool
  types : List Uri → Bool
  comparison : Comparison → Option Bool → Option Bool
  optional : Bool → Bool
  optional_optional : ∀ b, optional (optional b) = optional b

namespace Term

mutual

/-- The meaning of a term. -/
def meaning (i : Interpretation) : Term → Option Bool
  | invalid _ => none
  | literal _ l => some (i.literal l)
  | resource _ u => some (i.resource u)
  | types _ us => some (i.types us)
  | comparison _ c t => i.comparison c (t.meaning i)
  | negation _ t => (t.meaning i).map not
  | optional _ t => (t.meaning i).map i.optional
  | group _ k ts => k.ofValues (meanings i ts)

/-- The meanings of those terms of a list that have one. -/
def meanings (i : Interpretation) : List Term → List Bool
  | [] => []
  | t :: ts => (t.meaning i).toList ++ meanings i ts

end

variable (i : Interpretation)

/-- Terms that differ in spans at most mean the same. -/
theorem meaning_eq_of_same {a b : Term} (h : a.same b = true) : a.meaning i = b.meaning i := by
  induction a generalizing b with
  | invalid s =>
    cases b with
    | invalid _ => rfl
    | _ => simp [same] at h
  | literal s l =>
    cases b with
    | literal _ m =>
      obtain rfl : l = m := by simpa [same] using h
      rfl
    | _ => simp [same] at h
  | resource s u =>
    cases b with
    | resource _ v =>
      obtain rfl : u = v := by simpa [same] using h
      rfl
    | _ => simp [same] at h
  | types s us =>
    cases b with
    | types _ vs =>
      obtain rfl : us = vs := by simpa [same] using h
      rfl
    | _ => simp [same] at h
  | comparison s c v ih =>
    cases b with
    | comparison _ d w =>
      rw [same, Bool.and_eq_true, beq_iff_eq] at h
      rw [meaning, meaning, h.1, ih h.2]
    | _ => simp [same] at h
  | negation s t ih =>
    cases b with
    | negation _ u => rw [meaning, meaning, ih h]
    | _ => simp [same] at h
  | optional s t ih =>
    cases b with
    | optional _ u => rw [meaning, meaning, ih h]
    | _ => simp [same] at h
  | group s k ts ih =>
    cases b with
    | group _ l us =>
      rw [same, Bool.and_eq_true, beq_iff_eq, sameMembers_iff] at h
      obtain ⟨rfl, h⟩ := h
      suffices meanings i ts = meanings i us by rw [meaning, meaning, this]
      induction h with
      | nil => rfl
      | cons hab _ ihs =>
        rw [meanings, meanings, ih _ (by simp) hab, ihs fun t ht => ih t (by simp [ht])]
    | _ => simp [same] at h

/-! ## Members of a group -/

/-- What a group of kind `k` with the members `ts` means. -/
def merged (k : Connective) (ts : List Term) : Option Bool := k.ofValues (meanings i ts)

theorem merged_cons (k : Connective) (t : Term) (ts : List Term) :
    merged i k (t :: ts) = k.merge (t.meaning i) (merged i k ts) := by
  rw [merged, meanings, Connective.ofValues_append, Connective.ofValues_toList, merged]

theorem merged_singleton (k : Connective) (t : Term) : merged i k [t] = t.meaning i := by
  rw [merged_cons]
  exact Connective.merge_none k _

theorem merged_append (k : Connective) (ts us : List Term) :
    merged i k (ts ++ us) = k.merge (merged i k ts) (merged i k us) := by
  induction ts with
  | nil => rfl
  | cons t ts ih => rw [List.cons_append, merged_cons, ih, merged_cons, Connective.merge_assoc]

/-- A member adds nothing to a group that has it already. -/
theorem merge_merged_of_mem (k : Connective) {t : Term} {ts : List Term} (h : t ∈ ts) :
    k.merge (merged i k ts) (t.meaning i) = merged i k ts := by
  induction ts with
  | nil => simp at h
  | cons u us ih =>
    rw [merged_cons]
    rcases List.mem_cons.1 h with rfl | h
    · rw [Connective.merge_comm, ← Connective.merge_assoc, Connective.merge_self]
    · rw [Connective.merge_assoc, ih h]

/-! ## The steps to the normal form -/

/-- Members may be replaced by what they put into the group. -/
theorem merged_spread (k : Connective) (t : Term) : merged i k (spread k t) = t.meaning i := by
  cases t with
  | invalid s => rfl
  | group s l ms =>
    rw [spread]
    split
    · rename_i h
      rw [← h, meaning, merged]
    · exact merged_singleton i k _
  | _ => exact merged_singleton i k _

theorem merged_flatMap_spread (k : Connective) (ts : List Term) :
    merged i k (ts.flatMap (spread k)) = merged i k ts := by
  induction ts with
  | nil => rfl
  | cons t ts ih => rw [List.flatMap_cons, merged_append, merged_spread, ih, merged_cons]

theorem merged_pushNew (k : Connective) (seen : List Term) (t : Term) :
    merged i k (pushNew seen t) = k.merge (merged i k seen) (t.meaning i) := by
  rw [pushNew]
  split
  · rename_i h
    obtain ⟨u, hu, hs⟩ := List.any_eq_true.1 h
    rw [← meaning_eq_of_same i hs, merge_merged_of_mem i k hu]
  · rw [merged_append, merged_singleton]

/-- Members that repeat an earlier one may be left out. -/
theorem merged_distinct (k : Connective) (ts : List Term) :
    merged i k (distinct ts) = merged i k ts := by
  have h : ∀ seen, merged i k (ts.foldl pushNew seen) = k.merge (merged i k seen) (merged i k ts) := by
    induction ts with
    | nil => exact fun seen => (Connective.merge_none k _).symm
    | cons t ts ih =>
      intro seen
      rw [List.foldl_cons, ih, merged_pushNew, merged_cons, Connective.merge_assoc]
  exact h []

theorem meaning_regroup (s : Span) (k : Connective) (ts : List Term) :
    (regroup s k ts).meaning i = merged i k ts := by
  match ts with
  | [] => rfl
  | [t] => exact (merged_singleton i k t).symm
  | _ :: _ :: _ => rfl

theorem meaning_negateNormal (s : Span) (t : Term) :
    (negateNormal s t).meaning i = (t.meaning i).map not := by
  cases t with
  | invalid _ => rfl
  | negation _ t => simp [negateNormal, meaning, Function.comp_def]
  | _ => rfl

theorem meaning_optionalNormal (s : Span) (t : Term) :
    (optionalNormal s t).meaning i = (t.meaning i).map i.optional := by
  cases t with
  | invalid _ => rfl
  | optional _ t => simp [optionalNormal, meaning, Function.comp_def, i.optional_optional]
  | _ => rfl

theorem merged_map_optimize (k : Connective) {ts : List Term}
    (h : ∀ t ∈ ts, t.optimize.meaning i = t.meaning i) :
    merged i k (ts.map optimize) = merged i k ts := by
  induction ts with
  | nil => rfl
  | cons t ts ih =>
    rw [List.map_cons, merged_cons, merged_cons, h t (by simp), ih fun u hu => h u (by simp [hu])]

/-- The normal form of a term means what the term means. -/
theorem meaning_optimize (t : Term) : t.optimize.meaning i = t.meaning i := by
  induction t with
  | comparison s c t ih => rw [optimize, meaning, meaning, ih]
  | negation s t ih => rw [optimize, meaning_negateNormal, ih, meaning]
  | optional s t ih => rw [optimize, meaning_optionalNormal, ih, meaning]
  | group s k ts ih =>
    rw [optimize, meaning_regroup, merged_distinct, merged_flatMap_spread, optimizeAll_eq_map,
      merged_map_optimize i k ih, merged, meaning]
  | _ => rw [optimize]

/-! ## Joined terms -/

theorem merged_side (k : Connective) (t : Term) : merged i k (t.side k) = t.meaning i := by
  cases t with
  | group s l ms => exact merged_spread i k (.group s l ms)
  | _ => exact merged_singleton i k _

theorem meaning_of_not_isValid {t : Term} (h : t.isValid = false) : t.meaning i = none := by
  cases t with
  | invalid s => rfl
  | _ => simp [isValid] at h

/-- Joined terms mean what the group of them means. -/
theorem meaning_join (k : Connective) (a b : Term) :
    (join k a b).meaning i = k.merge (a.meaning i) (b.meaning i) := by
  rw [join]
  split
  · rename_i ha
    rw [meaning_of_not_isValid i (t := a) (by simpa using ha)]
    rfl
  · split
    · rename_i hb
      rw [meaning_of_not_isValid i (t := b) (by simpa using hb), Connective.merge_none]
    · rw [meaning]
      change merged i k _ = _
      rw [merged_append, merged_side, merged_side]

end Term

end DesktopSearch
