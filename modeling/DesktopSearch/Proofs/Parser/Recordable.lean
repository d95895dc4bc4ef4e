import DesktopSearch.Proofs.Parser.Settled
import DesktopSearch.Proofs.Term.Exact

/-!
# What is read is written exactly

The terms of a finished draft are `Recordable` : made of values of the text, of resources, of single types
and of comparisons that have a property and a comparator and nothing else. Tuning makes ranges of them and
fusing makes groups and negations, so what a text is read as is recordable too, if it says anything
(`Draft.recordable_of_tryAll?`). The document of such a term says all of it (`Recordable.isExact`), and its
numbers are ones that the program can hold (`Recordable.fits`).
-/

namespace DesktopSearch

/-- What a term that is read can be made of. -/
inductive Recordable (settings : Settings) : Term → Prop
  | literal (s : Span) (l : Literal) (read : l.IsRead settings) : Recordable settings (.literal s l)
  | resource (s : Span) (u : Uri) : Recordable settings (.resource s u)
  | types (s : Span) (u : Uri) : Recordable settings (.types s [u])
  | comparison (s : Span) (property : Option Uri) (comparator : Comparator) (v : Term)
    (value : Recordable settings v) : Recordable settings (.comparison s { property, comparator } v)
  | negation (s : Span) (t : Term) (inner : Recordable settings t) :
    Recordable settings (.negation s t)
  | group (s : Span) (k : Connective) (ts : List Term) (members : ∀ t ∈ ts, Recordable settings t) :
    Recordable settings (.group s k ts)

variable {settings : Settings} {flags : ParserFlags} {t : Term}

namespace Recordable

theorem withSpan (h : Recordable settings t) (s : Span) : Recordable settings (t.withSpan s) := by
  cases h with
  | literal _ l read => exact .literal s l read
  | resource _ u => exact .resource s u
  | types _ u => exact .types s u
  | comparison _ p c v value => exact .comparison s p c v value
  | negation _ t inner => exact .negation s t inner
  | group _ k ts members => exact .group s k ts members

theorem isValid (h : Recordable settings t) : t.isValid = true := by
  cases h <;> rfl

/-- The document of a recordable term says all of it. -/
theorem isExact (h : Recordable settings t) : t.IsExact := by
  induction h with
  | literal s l read => exact .literal s l (Term.recorded_literal_eq_iff.1 read.recorded_eq)
  | resource s u => exact .resource s u
  | types s u => exact .types s [u] (by simp)
  | comparison s p c v _ ih => exact .comparison s _ v (fun _ => rfl) ih
  | negation s t inner ih => exact .negation s t inner.isValid ih
  | group s k ts members ih => exact .group s k ts (fun t ht => (members t ht).isValid) ih

/-- The numbers of a recordable term are ones that the program can hold. -/
theorem fits (h : Recordable settings t) (hfits : settings.Fits) : t.Fits := by
  induction h with
  | literal s l read =>
    exact ⟨by simpa [Term.literals] using read.fits hfits, by simp [Term.comparisons]⟩
  | resource s u => exact ⟨by simp [Term.literals], by simp [Term.comparisons]⟩
  | types s u => exact ⟨by simp [Term.literals], by simp [Term.comparisons]⟩
  | comparison s p c v _ ih =>
    have hunsorted : -(Text.int32Limit : Int) ≤ 0 ∧ (0 : Int) < Text.int32Limit := by decide
    refine ⟨ih.1, ?_⟩
    rw [Term.comparisons, List.forall_mem_cons]
    exact ⟨hunsorted, ih.2⟩
  | negation s t _ ih => exact ih
  | group s k ts _ ih => exact Term.fits_group ih

/-! ## Tuning and fusing -/

theorem between (property : Option Uri) {low high : Literal} (hlow : low.IsRead settings)
    (hhigh : high.IsRead settings) (s : Span) :
    Recordable settings (Term.between property low high s) := by
  refine .group s .and _ ?_
  rw [List.forall_mem_cons, List.forall_mem_singleton]
  exact ⟨.comparison s _ _ _ (.literal s low hlow), .comparison s _ _ _ (.literal s high hhigh)⟩

/-- The instants of the period of a moment lie between two whole seconds. -/
theorem duringMoment (property : Option Uri) {m : Moment} (h : m.instant.nano = 0) (s : Span) :
    Recordable settings (Term.duringMoment property m s) :=
  between property (Literal.isRead_dateTime h)
    (Literal.isRead_dateTime (Period.nano_advance h m.precision)) s

/-- Dates are whole seconds. -/
theorem nano_of_moment? (h : Recordable settings t) {m : Moment} (hm : t.moment? = some m) :
    m.instant.nano = 0 := by
  cases h with
  | literal s l read =>
    cases l with
    | dateTime m' => exact read.whole m (congrArg Literal.dateTime (Option.some.inj hm))
    | _ => simp [Term.moment?, Term.literal?, Literal.moment?] at hm
  | _ => simp [Term.moment?, Term.literal?] at hm

/-- Tuning keeps terms recordable. -/
theorem tune (h : Recordable settings t) (k : ResourceContext) :
    Recordable settings (tune settings flags k t) := by
  cases h with
  | literal s l read =>
    cases l with
    | string word =>
      rw [DesktopSearch.tune]
      split
      · exact .literal s _ (Literal.isRead_string _)
      · exact .literal s _ (Literal.isRead_string _)
    | boolean b => exact .literal s _ read
    | integer n =>
      have hwindow := settings.isRead_integerWindow n
      exact between _ hwindow.1 hwindow.2 s
    | double d => exact between _ (Literal.isRead_double _) (Literal.isRead_double _) s
    | dateTime m => exact duringMoment _ (read.whole m rfl) s
  | comparison s p c v value =>
    change Recordable settings (tuneComparison k s _ v)
    rw [tuneComparison_eq]
    split
    · rename_i hmoment _
      exact duringMoment _ (value.nano_of_moment? hmoment) s
    · exact .comparison s _ c v value
  | resource s u => exact .resource s u
  | types s u => exact .types s u
  | negation s t inner => exact .negation s t inner
  | group s k ts members => exact .group s k ts members

end Recordable

/-- Recordable terms are joined to recordable terms. -/
theorem closedUnderFusion_recordable : ClosedUnderFusion (Recordable settings) where
  withSpan s h := h.withSpan s
  negation s h := .negation s _ h
  append k ha hb := by
    refine Term.append_of_groups (fun s k a b ha hb => ?_) (fun s s' k ts t hts ht => ?_) k ha hb
    · exact .group s k _ (by simp [ha, hb])
    · cases hts with
      | group _ _ _ members =>
        exact .group s k _ (List.forall_mem_append.2 ⟨members, List.forall_mem_singleton.2 ht⟩)

/-- Recordable terms are fused to a recordable one, if it says anything. -/
theorem fuse_of_recordable {ts : List Term} (h : ∀ t ∈ ts, Recordable settings t ∨ t = .nothing) :
    (fuse settings flags ts 0).1.IsKind (Recordable settings) := by
  refine fuse_of_tuned closedUnderFusion_recordable fun t ht k => ?_
  rcases h t ht with hrecordable | rfl
  · exact fun _ => hrecordable.tune k
  · exact Term.isKind_of_not_isValid rfl

/-! ## Readings -/

/-- Before dates are folded, readings answer with fields and recordable terms. -/
theorem Answer.recordable (h : Answer settings t) :
    Recordable settings t ∨ t.field?.isSome = true := by
  cases h with
  | literal s l read => exact Or.inl (.literal s l read)
  | types s u => exact Or.inl (.types s u)
  | absoluteField s p n => exact Or.inr (Term.isSome_field? p false s _ n)
  | relativeField s p n => exact Or.inr (Term.isSome_field? p true s _ n)
  | fileName s c r word =>
    exact Or.inl (.comparison s _ c _ (.literal r _ (Literal.isRead_string word)))

namespace Reading

theorem recordable_of_value? {v : Term} {c : Option Comparator}
    (ht : Recordable settings t ∨ t = .nothing) (h : value? t = some (v, c)) :
    Recordable settings v := by
  rcases ht with ht | rfl
  · cases ht with
    | literal s l read =>
      obtain ⟨rfl, -⟩ := Prod.mk.inj (Option.some.inj h)
      exact .literal s l read
    | comparison s p c' w value =>
      rw [value?] at h
      split at h
      · obtain ⟨rfl, -⟩ := Prod.mk.inj (Option.some.inj h)
        exact value
      · contradiction
    | _ => simp [value?] at h
  · simp [value?, Term.nothing] at h

/-- After dates are folded, readings answer recordable terms with recordable ones. -/
theorem keeps_recordable (x : Surroundings) {r : Reading} (hr : ¬ r.IsBeforeDates) :
    Keeps (Recordable x.settings) (r.apply x) := by
  intro ts hts u hu
  cases r with
  | comparators c =>
    obtain ⟨s, l, hl, rfl⟩ := eq_of_mem_readComparator hu
    exact .comparison _ _ c _ ((hts _ hl).resolve_right (by simp [Term.nothing]))
  | properties p d =>
    obtain ⟨t, ht, v, c, w, hvalue, hconvert, rfl⟩ := eq_of_mem_readProperty hu
    have hv := recordable_of_value? (hts t ht) hvalue
    rcases Domain.eq_of_convert? hconvert with ⟨s, l, rfl, rfl, -⟩ | ⟨s, r, rfl, -⟩
    · exact .comparison _ _ _ _ hv
    · exact .comparison _ _ _ _ (.resource s r)
  | subqueries p =>
    obtain ⟨hvalid, rfl⟩ := eq_of_mem_readSubquery hu
    exact .comparison _ _ _ _ (fuse_of_recordable hts hvalid)
  | _ => exact absurd trivial hr

end Reading

/-! ## What is read -/

/-- The terms of a finished draft are recordable. -/
theorem Draft.recordable_of_tryAll? {x : Surroundings} {now : Instant} {cursor : Option Nat} {text : String}
    {d : Draft} (hd : Draft.tryAll? x now cursor ⟨tokenize x.settings text, [], []⟩ = some d) :
    ∀ t ∈ d.terms, Recordable x.settings t :=
  tryAll?_of_answer (fun _ s h => h.withSpan s)
    (fun s word => .literal s _ (Literal.isRead_string word))
    (fun s _ _ hm => .literal s _ (Literal.isRead_dateTime (DateSpec.nano_of_moment? hm)))
    (fun _ => Answer.recordable) (fun _ _ => Reading.keeps_recordable x) hd

/-- A text is read as the query of an exact term, with numbers that the program can hold if those are that
the words of the language stand for. -/
theorem Parser.exists_eq_ofTerm_of_read {p : Parser} {flags : ParserFlags} {cursor : Option Nat}
    {text : String} {q : Query} (h : (p.read flags cursor text).1 = some q) :
    ∃ t : Term, q = .ofTerm t ∧ t.IsExact ∧ (p.settings.Fits → t.Fits) := by
  obtain ⟨d, hd, rfl⟩ := read_eq_some_iff.1 h
  have hkind : (fuse p.settings flags d.terms 0).1.IsKind (Recordable p.settings) :=
    fuse_of_recordable fun t ht => Or.inl (Draft.recordable_of_tryAll? hd t ht)
  refine ⟨_, rfl, ?_⟩
  rcases hkind.eq_invalid_or with ⟨s, hinvalid⟩ | hrecordable
  · rw [hinvalid]
    exact ⟨.invalid s, fun _ => Term.fits_invalid s⟩
  · exact ⟨hrecordable.isExact, hrecordable.fits⟩

end DesktopSearch
