import DesktopSearch.Proofs.Parser.Cursor
import DesktopSearch.Proofs.Parser.Draft
import DesktopSearch.Proofs.Parser.Reading
import DesktopSearch.Proofs.Term.Settled

/-!
# What is read is settled

Until dates are folded the terms of a text are calendar fields or `Tunable`, and folding takes the fields
away (`Draft.tunable_of_tryAll?`). In every context a tunable term is tuned to a settled one
(`Tunable.tune`) : numbers and dates become ranges of a property, and the names of properties are
resolved. So nothing of the forms in between is left in what a text is read as
(`Parser.settled_of_read`), whether it is looked for at the top or in the queries below relations.
-/

namespace DesktopSearch

/-! ## Tunable terms -/

/-- A value that a comparison may have before it is tuned. -/
inductive Comparable : Term → Prop
  | literal (s : Span) (l : Literal) : Comparable (.literal s l)
  | resource (s : Span) (u : Uri) : Comparable (.resource s u)
  | nested (t : Term) (h : t.Settled) : Comparable t

/-- What a term of a text can be once dates are folded. -/
def Tunable : Term → Prop
  | .literal .. | .types .. => True
  | .comparison _ c v =>
    (∀ k : ResourceContext, ∀ p ∈ k.settle c.property, p.IsSettled) ∧ Comparable v
  | _ => False

theorem tunable_ignoresSpans : IgnoresSpans Tunable := by
  intro t s h
  cases t <;> exact h

theorem isSettled_of_hasLiterals {p : Uri} (h : HasLiterals p) (k : ResourceContext) :
    ∀ q ∈ k.settle (some p), q.IsSettled := fun q hq =>
  isSettled_of_mem (List.mem_append_left _ (h k q hq))

theorem isSettled_of_hasResources {p : Uri} (h : HasResources p) (k : ResourceContext) :
    ∀ q ∈ k.settle (some p), q.IsSettled := fun q hq =>
  isSettled_of_mem (List.mem_append_right _ (h k q hq))

theorem settled_between {p : Option Uri} (h : ∀ q ∈ p, q.IsSettled) (low high : Literal)
    (s : Span) : (Term.between p low high s).Settled := by
  refine .group s .and _ (by simp) ?_
  rw [List.forall_mem_cons, List.forall_mem_singleton]
  exact ⟨.literal s _ s low h (by simp), .literal s _ s high h (by simp)⟩

variable {settings : Settings} {flags : ParserFlags}

/-- Tuning settles comparisons; a date that is equalled becomes a range. -/
theorem settled_tuneComparison {k : ResourceContext} {c : Comparison} {v : Term}
    (h : ∀ p ∈ k.settle c.property, p.IsSettled) (hv : Comparable v) (s : Span) :
    (tuneComparison k s c v).Settled := by
  rw [tuneComparison_eq]
  split
  · exact settled_between h _ _ s
  · rename_i hother
    cases hv with
    | literal r l =>
      refine .literal s _ r l h fun hequal => ?_
      rw [Option.eq_none_iff_forall_ne_some]
      exact fun m hm => hother m hm hequal
    | resource r u => exact .resource s _ r u h
    | nested _ ht => exact .nested s _ v h ht

/-- A tunable term is settled by every context. -/
theorem Tunable.tune {t : Term} (h : Tunable t) (k : ResourceContext) :
    (tune settings flags k t).Settled := by
  have hsize : ∀ q ∈ k.sizeProperty?, q.IsSettled := fun q hq =>
    isSettled_of_mem (List.mem_append_left _ (mem_literalProperties_sizeProperty? k q hq))
  have hdate : ∀ q ∈ k.dateProperty?, q.IsSettled := fun q hq =>
    isSettled_of_mem (List.mem_append_left _ (mem_literalProperties_dateProperty? k q hq))
  cases t with
  | literal s l =>
    cases l with
    | string word =>
      rw [DesktopSearch.tune]
      split
      · exact .word s _ (by simp [Literal.IsWord, Literal.type])
      · exact .word s _ (by simp [Literal.IsWord, Literal.type])
    | boolean b => exact .word s _ (by simp [Literal.IsWord, Literal.type])
    | integer n => exact settled_between hsize _ _ s
    | double d => exact settled_between hsize _ _ s
    | dateTime m => exact settled_between hdate _ _ s
  | types s us => exact .types s us
  | comparison s c v => exact settled_tuneComparison (h.1 k) h.2 s
  | _ => exact h.elim

/-- Tunable terms are fused to a settled one, if it says anything. -/
theorem fuse_of_tunable {ts : List Term} (h : ∀ t ∈ ts, Tunable t ∨ t = .nothing) :
    (fuse settings flags ts 0).1.IsKind Term.Settled := by
  refine fuse_of_tuned closedUnderFusion_settled fun t ht k => ?_
  rcases h t ht with htunable | rfl
  · exact fun _ => htunable.tune k
  · exact Term.isKind_of_not_isValid rfl

/-! ## Readings -/

/-- Fields are known by their properties, wherever they stand. -/
theorem Term.isSome_field? (p : Period) (relative : Bool) (s r : Span) (n : Int) :
    (comparison s { property := some (fieldProperty p relative), comparator := .equal }
      (.literal r (.integer n))).field?.isSome = true := by
  have hscheme : (fieldProperty p relative).scheme? = some Uri.dateScheme := by
    cases p <;> cases relative <;> decide +kernel
  have hhost : (fieldProperty p relative).host?.bind Period.ofName? = some p := by
    cases p <;> cases relative <;> decide +kernel
  obtain ⟨name, hname, hp⟩ := Option.bind_eq_some_iff.1 hhost
  simp [field?, fieldParts?, hscheme, hname, hp, integer?, literal?, Literal.integer?]

/-- Before dates are folded, readings answer with fields and tunable terms. -/
theorem Answer.tunable {t : Term} (h : Answer settings t) :
    Tunable t ∨ t.field?.isSome = true := by
  cases h with
  | literal s l read => exact Or.inl trivial
  | types s u => exact Or.inl trivial
  | absoluteField s p n => exact Or.inr (Term.isSome_field? p false s _ n)
  | relativeField s p n => exact Or.inr (Term.isSome_field? p true s _ n)
  | fileName s c r word =>
    refine Or.inl ⟨?_, .literal r _⟩
    exact isSettled_of_hasLiterals (hasLiterals_of_mem (by simp [Ontology.literalProperties]))

namespace Reading

theorem keeps_tunable (x : Surroundings) {r : Reading} (h : r.Suits) (hr : ¬ r.IsBeforeDates) :
    Keeps Tunable (r.apply x) := by
  intro ts hts u hu
  cases r with
  | comparators c =>
    obtain ⟨s, l, -, rfl⟩ := eq_of_mem_readComparator hu
    exact ⟨by simp [ResourceContext.settle], .literal s l⟩
  | properties p d =>
    obtain ⟨t, -, v, c, w, -, hconvert, rfl⟩ := eq_of_mem_readProperty hu
    rcases Domain.eq_of_convert? hconvert with ⟨s, l, -, rfl, hfits⟩ | ⟨s, r, rfl, hfits⟩
    · exact ⟨isSettled_of_hasLiterals (hfits p h), .literal s l⟩
    · exact ⟨isSettled_of_hasResources (hfits p h), .resource s r⟩
  | subqueries p =>
    obtain ⟨hvalid, rfl⟩ := eq_of_mem_readSubquery hu
    exact ⟨isSettled_of_hasResources h, .nested _ (fuse_of_tunable hts hvalid)⟩
  | _ => exact absurd trivial hr

end Reading

/-! ## Phrasings -/

theorem Phrasing.not_isBeforeDates_of_mem_afterDates {ph : Phrasing} (h : ph ∈ afterDates) :
    ¬ ph.reading.IsBeforeDates := by
  have hall : ∀ ph ∈ afterDates, ¬ ph.reading.IsBeforeDates := by
    simp [afterDates, ofComparators, ofProperties, ofRelations, proposed, Reading.IsBeforeDates]
  exact hall ph h

/-- The terms of a finished draft are of a kind if words and moments are, if readings answer with fields and
terms of the kind before dates are folded, and if they keep the kind afterwards : the fields are folded. -/
theorem Draft.tryAll?_of_answer {Q : Term → Prop} {x : Surroundings} {now : Instant}
    (hspan : IgnoresSpans Q) (hword : ∀ s word, Q (.literal s (.string word)))
    (hmoment : ∀ s (spec : DateSpec) m, spec.moment? now = some m → Q (.literal s (.dateTime m)))
    (hanswer : ∀ t, Answer x.settings t → Q t ∨ t.field?.isSome = true)
    (hafter : ∀ r : Reading, r.Suits → ¬ r.IsBeforeDates → Keeps Q (r.apply x))
    {cursor : Option Nat} {text : String} {d : Draft}
    (hd : Draft.tryAll? x now cursor ⟨tokenize x.settings text, [], []⟩ = some d) : ∀ t ∈ d.terms, Q t := by
  have hfields : IgnoresSpans fun t => Q t ∨ t.field?.isSome = true := by
    intro t s h
    refine h.imp (hspan t s) fun hfield => ?_
    cases t <;> exact hfield
  refine tryAll?_keeps hfields (fun ph hph => ?_) hmoment (fun t ht hnone => ?_) hspan
    (fun ph hph => ?_) ?_ hd
  · intro ts _ u hu
    exact hanswer u (Reading.answer_of_mem_apply (Phrasing.isBeforeDates_of_mem_ofDates hph) hu)
  · simpa [hnone] using ht
  · exact hafter _ (Phrasing.suits_of_mem_afterDates hph)
      (Phrasing.not_isBeforeDates_of_mem_afterDates hph)
  · intro t ht
    obtain ⟨s, word, rfl⟩ := exists_of_mem_tokenize ht
    exact Or.inl (hword s word)

/-- The terms of a finished draft are tunable. -/
theorem Draft.tunable_of_tryAll? {x : Surroundings} {now : Instant} {cursor : Option Nat} {text : String}
    {d : Draft} (hd : Draft.tryAll? x now cursor ⟨tokenize x.settings text, [], []⟩ = some d) :
    ∀ t ∈ d.terms, Tunable t :=
  tryAll?_of_answer tunable_ignoresSpans (fun _ _ => trivial) (fun _ _ _ _ => trivial)
    (fun _ => Answer.tunable) (fun _ => Reading.keeps_tunable x) hd

/-! ## What is read -/

namespace Parser

variable {p : Parser} {flags : ParserFlags} {cursor : Option Nat} {text : String} {q : Query}

/-- What a text is read as is settled, if it says anything. -/
theorem settled_of_read (h : (p.read flags cursor text).1 = some q) : q.term.IsKind Term.Settled := by
  obtain ⟨d, hd, rfl⟩ := read_eq_some_iff.1 h
  exact fuse_of_tunable fun t ht => Or.inl (Draft.tunable_of_tryAll? hd t ht)

/-- No form in between is left in what a text is read as. In every part of it, comparisons have properties
that are neither calendar fields nor names, and none equals a date; numbers and dates are values of
comparisons; what is below a part says something; and groups have members to join. -/
theorem read_term_parts (h : (p.read flags cursor text).1 = some q) :
    let t := q.term
    (∀ s c v, t.Part (.comparison s c v) →
      (∀ q ∈ c.property, q.scheme? ≠ some "date" ∧ q.scheme? ≠ some "property") ∧
        (c.comparator = .equal → v.moment? = none)) ∧
    (∀ s l, t = .literal s l ∨
        (∃ u, t.Part u ∧ u.isComparison = false ∧ .literal s l ∈ u.children) →
      l.type ∉ [.integer, .double, .dateTime]) ∧
    (∀ u, t.Part u → ∀ w ∈ u.children, w.isValid = true) ∧
    (∀ s k ts, t.Part (.group s k ts) → 2 ≤ ts.length) := by
  have hkind := settled_of_read h
  dsimp only
  generalize q.term = t at hkind ⊢
  refine ⟨fun s c v hu => ?_, fun s l hplace => ?_, fun u hu w hw => ?_, fun s k ts hu => ?_⟩
  · obtain ⟨hproperty, hequal⟩ := (hkind.part_comparison hu).of_comparison
    exact ⟨fun q hq => ⟨(hproperty q hq).not_field, (hproperty q hq).not_name⟩, hequal⟩
  · rcases hplace with rfl | ⟨u, hu, hcomparison, hl⟩
    · exact (hkind rfl).isWord
    · rcases Term.IsKind.child (hkind.part hu) hl with hsettled | ⟨htrue, -⟩
      · exact hsettled.isWord
      · simp [hcomparison] at htrue
  · rcases Term.IsKind.child (hkind.part hu) hw with hsettled | ⟨-, hscalar⟩
    · exact hsettled.isValid
    · cases w with
      | invalid s => simp [Term.isScalar] at hscalar
      | _ => rfl
  · cases hkind.part_group hu with
    | group _ _ _ full _ => exact full

/-- The comparison that a size is read as has a property that is no name of one any more, and what is below
it says something. -/
theorem read_term_parts_size :
    let now : Instant :=
      .midnight ⟨2024, 2, 29, by decide, by decide, by decide, by decide, by decide, by decide⟩
    ∃ q, ((fresh .english none now).read {} none "size > 2KB").1 = some q ∧ q.isValid = true ∧
      (∀ s c v, q.term.Part (.comparison s c v) →
        (∀ q ∈ c.property, q.scheme? ≠ some "date" ∧ q.scheme? ≠ some "property") ∧
          (c.comparator = .equal → v.moment? = none)) ∧
      ∀ u, q.term.Part u → ∀ w ∈ u.children, w.isValid = true := by
  intro now
  obtain ⟨q, hq, hvalid⟩ := exists_read_size none
  obtain ⟨hcomparisons, -, hchildren, -⟩ := read_term_parts hq
  exact ⟨q, hq, hvalid, hcomparisons, hchildren⟩

end Parser

end DesktopSearch
