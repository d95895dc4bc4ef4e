import DesktopSearch.Proofs.Term.Markup
import DesktopSearch.Proofs.Term.Span
import DesktopSearch.Term.Operators

/-!
# Terms that are written exactly

The document of a term says all of an `IsExact` term but its spans, and of no other (`isExact_iff`). Numbers
that the program can hold stay so when terms are joined and negated (`Fits.join`, `Fits.negate`).
-/

namespace DesktopSearch.Term

/-! ## Exact terms -/

/-- A term without anything that its document leaves out : negations and optional parts are around something
that is written, and so are the members of groups; restrictions have types, dates no fraction of a second,
and comparisons that are not sorted by no descending order. -/
inductive IsExact : Term → Prop
  | invalid (s : Span) : IsExact (invalid s)
  | literal (s : Span) (l : Literal)
    (whole : ∀ m, l = .dateTime m → m.instant.withoutFraction = m.instant) : IsExact (literal s l)
  | resource (s : Span) (u : Uri) : IsExact (resource s u)
  | types (s : Span) (us : List Uri) (full : us ≠ []) : IsExact (types s us)
  | comparison (s : Span) (c : Comparison) (v : Term)
    (unsorted : c.sortWeight = 0 → c.sortOrder = .ascending) (value : IsExact v) :
    IsExact (comparison s c v)
  | negation (s : Span) (t : Term) (full : t.isValid = true) (inner : IsExact t) :
    IsExact (negation s t)
  | optional (s : Span) (t : Term) (full : t.isValid = true) (inner : IsExact t) :
    IsExact (optional s t)
  | group (s : Span) (k : Connective) (ts : List Term) (full : ∀ t ∈ ts, t.isValid = true)
    (members : ∀ t ∈ ts, IsExact t) : IsExact (group s k ts)

/-- Of literals, only moments with fractions of a second are not recorded as they are. -/
theorem recorded_literal_eq_iff {l : Literal} :
    l.recorded = l ↔ ∀ m, l = .dateTime m → m.instant.withoutFraction = m.instant := by
  cases l with
  | dateTime m =>
    obtain ⟨t, p⟩ := m
    simp [Literal.recorded]
  | _ => simp [Literal.recorded]

/-- Of comparisons, only an order that does not count is not recorded. -/
theorem recorded_comparison_eq_iff {c : Comparison} :
    c.recorded = c ↔ (c.sortWeight = 0 → c.sortOrder = .ascending) := by
  obtain ⟨property, comparator, inverted, variableName, aggregate, weight, order⟩ := c
  by_cases hw : weight = 0
  · simp [Comparison.recorded, hw, eq_comm]
  · simp [Comparison.recorded, hw]

theorem bareAll_eq_recordedMembers {ts : List Term} (hvalid : ∀ t ∈ ts, t.isValid = true)
    (h : ∀ t ∈ ts, t.recorded = t.bare) : recordedMembers ts = bareAll ts := by
  induction ts with
  | nil => rfl
  | cons t ts ih =>
    rw [List.forall_mem_cons] at hvalid h
    have ht : t.recorded.isValid = true := by rw [h.1, isValid_bare, hvalid.1]
    rw [recordedMembers, if_pos ht, h.1, ih hvalid.2 h.2, bareAll]

/-- All of an exact term is recorded but its spans. -/
theorem IsExact.recorded_eq {t : Term} (h : t.IsExact) : t.recorded = t.bare := by
  induction h with
  | invalid s => rfl
  | literal s l whole => rw [recorded, recorded_literal_eq_iff.2 whole, ofLiteral, bare]
  | resource s u => rw [recorded, bare]
  | types s us full => rw [recorded, if_neg (by simpa using full), bare]
  | comparison s c v unsorted _ ih =>
    rw [recorded, recorded_comparison_eq_iff.2 unsorted, ih, bare]
  | negation s t full _ ih => rw [recorded, ih, isValid_bare, if_pos full, bare]
  | optional s t full _ ih => rw [recorded, ih, isValid_bare, if_pos full, bare]
  | group s k ts full _ ih => rw [recorded, bareAll_eq_recordedMembers full ih, bare]

/-- Members can get lost when a group is recorded, but none is added. -/
theorem length_recordedMembers_le (ts : List Term) : (recordedMembers ts).length ≤ ts.length := by
  rw [recordedMembers_eq]
  exact (List.length_filter_le _ _).trans_eq (List.length_map _)

theorem forall_of_recordedMembers_eq {ts : List Term} (h : recordedMembers ts = bareAll ts) :
    ∀ t ∈ ts, t.isValid = true ∧ t.recorded = t.bare := by
  induction ts with
  | nil => simp
  | cons t ts ih =>
    rw [recordedMembers, bareAll] at h
    split at h
    · rename_i hvalid
      obtain ⟨ht, hts⟩ := List.cons.inj h
      rw [ht, isValid_bare] at hvalid
      exact List.forall_mem_cons.2 ⟨⟨hvalid, ht⟩, ih hts⟩
    · have hle := length_recordedMembers_le ts
      rw [h, List.length_cons, bareAll_eq_map, List.length_map] at hle
      omega

/-- Exact terms are those of which all is recorded but the spans. -/
theorem isExact_iff {t : Term} : t.IsExact ↔ t.recorded = t.bare := by
  refine ⟨IsExact.recorded_eq, fun h => ?_⟩
  induction t with
  | invalid s => exact .invalid s
  | literal s l =>
    rw [recorded, ofLiteral, bare, literal.injEq] at h
    exact .literal s l (recorded_literal_eq_iff.1 h.2)
  | resource s u => exact .resource s u
  | types s us =>
    refine .types s us fun hempty => ?_
    subst hempty
    simp [recorded, bare] at h
  | comparison s c v ih =>
    rw [recorded, bare, comparison.injEq] at h
    exact .comparison s c v (recorded_comparison_eq_iff.1 h.2.1) (ih h.2.2)
  | negation s t ih =>
    rw [recorded, bare] at h
    split at h
    · rename_i hvalid
      rw [negation.injEq] at h
      rw [h.2, isValid_bare] at hvalid
      exact .negation s t hvalid (ih h.2)
    · simp [nothing] at h
  | optional s t ih =>
    rw [recorded, bare] at h
    split at h
    · rename_i hvalid
      rw [optional.injEq] at h
      rw [h.2, isValid_bare] at hvalid
      exact .optional s t hvalid (ih h.2)
    · simp [nothing] at h
  | group s k ts ih =>
    rw [recorded, bare, group.injEq] at h
    have hmembers := forall_of_recordedMembers_eq h.2.2
    exact .group s k ts (fun t ht => (hmembers t ht).1) fun t ht => ih t ht (hmembers t ht).2

/-- An exact term is the same after it was written. -/
theorem IsExact.same_recorded {t : Term} (h : t.IsExact) : t.recorded.same t = true := by
  rw [same_iff_bare_eq, h.recorded_eq, bare_bare]

/-! ## Numbers of joined terms -/

theorem fits_invalid (s : Span) : (invalid s).Fits := ⟨by simp [literals], by simp [comparisons]⟩

theorem fits_nothing : nothing.Fits := fits_invalid .empty

theorem fits_group {s : Span} {k : Connective} {ts : List Term} (h : ∀ t ∈ ts, t.Fits) :
    (group s k ts).Fits := by
  refine ⟨fun l hl => ?_, fun c hc => ?_⟩
  · rw [literals, mem_literalsOfAll] at hl
    obtain ⟨t, ht, hl⟩ := hl
    exact (h t ht).1 l hl
  · rw [comparisons, mem_comparisonsOfAll] at hc
    obtain ⟨t, ht, hc⟩ := hc
    exact (h t ht).2 c hc

theorem Fits.side {t : Term} (h : t.Fits) (k : Connective) : ∀ u ∈ t.side k, u.Fits := by
  cases t with
  | group s l ts =>
    by_cases hk : l = k
    · rw [Term.side, if_pos hk]
      exact fun u hu => h.member hu
    · rw [Term.side, if_neg hk]
      exact List.forall_mem_singleton.2 h
  | _ => exact List.forall_mem_singleton.2 h

/-- Joining terms makes no numbers. -/
theorem Fits.join {a b : Term} (ha : a.Fits) (hb : b.Fits) (k : Connective) :
    (Term.join k a b).Fits := by
  unfold Term.join
  split
  · exact hb
  split
  · exact ha
  · exact fits_group (List.forall_mem_append.2 ⟨ha.side k, hb.side k⟩)

theorem Fits.negate {t : Term} (h : t.Fits) : t.negate.Fits := by
  unfold Term.negate
  split
  · exact h
  · exact fits_nothing

end DesktopSearch.Term
