import DesktopSearch.Proofs.Term.Attributes
import DesktopSearch.Proofs.Term.Basic
import DesktopSearch.Proofs.Xml.Tree

/-!
# Terms read back

A document does not keep all of a term. `recorded` is what it keeps : members of groups that say nothing
are left out, a negation or an optional part of such a term says nothing itself, a type restriction
without types gets the empty type, a date loses its fraction of a second, the order of a comparison that
is not sorted by is forgotten, and so are the spans.

`ofMarkup_markup` : reading the document of a term gives exactly what is recorded of it, as long as its
numbers are those of the program and its doubles are spelled by their texts. The induction goes over the
elements of a term, where a term that says nothing has none; the document around them is read back as a
tree first.
-/

namespace DesktopSearch.Term

/-! ## What is recorded -/

mutual

/-- What the document of a term says of it. -/
def recorded : Term → Term
  | invalid _ => nothing
  | literal _ l => ofLiteral l.recorded
  | resource _ u => resource .empty u
  | types _ us => types .empty (if us.isEmpty then [⟨""⟩] else us)
  | comparison _ c v => comparison .empty c.recorded v.recorded
  | negation _ t => if t.recorded.isValid then negation .empty t.recorded else nothing
  | optional _ t => if t.recorded.isValid then optional .empty t.recorded else nothing
  | group _ k ts => group .empty k (recordedMembers ts)

/-- What is recorded of the members of a group. -/
def recordedMembers : List Term → List Term
  | [] => []
  | t :: ts => if t.recorded.isValid then t.recorded :: recordedMembers ts else recordedMembers ts

end

mutual

/-- The literals of a term. -/
def literals : Term → List Literal
  | literal _ l => [l]
  | comparison _ _ v => v.literals
  | negation _ t => t.literals
  | optional _ t => t.literals
  | group _ _ ts => literalsOfAll ts
  | _ => []

/-- The literals of the terms of a list. -/
def literalsOfAll : List Term → List Literal
  | [] => []
  | t :: ts => t.literals ++ literalsOfAll ts

end

mutual

/-- The comparisons of a term, apart from the terms they compare with. -/
def comparisons : Term → List Comparison
  | comparison _ c v => c :: v.comparisons
  | negation _ t => t.comparisons
  | optional _ t => t.comparisons
  | group _ _ ts => comparisonsOfAll ts
  | _ => []

/-- The comparisons of the terms of a list. -/
def comparisonsOfAll : List Term → List Comparison
  | [] => []
  | t :: ts => t.comparisons ++ comparisonsOfAll ts

end

/-- Every number of the term is one that the program can hold. -/
def Fits (t : Term) : Prop := (∀ l ∈ t.literals, l.Fits) ∧ ∀ c ∈ t.comparisons, c.Fits

/-- The text of every double of the term spells it. -/
def SpellsDoubles (t : Term) : Prop :=
  ∀ d, .double d ∈ t.literals → Double.read? d.text.toList = some d

/-- Of the members of a group the valid ones are recorded. -/
theorem recordedMembers_eq (ts : List Term) :
    recordedMembers ts = (ts.map recorded).filter isValid := by
  induction ts with
  | nil => rfl
  | cons t ts ih => rw [recordedMembers, ih, List.map_cons, List.filter_cons]

theorem mem_literalsOfAll {ts : List Term} {l : Literal} :
    l ∈ literalsOfAll ts ↔ ∃ t ∈ ts, l ∈ t.literals := by
  induction ts with
  | nil => simp [literalsOfAll]
  | cons t ts ih => simp [literalsOfAll, ih]

theorem mem_comparisonsOfAll {ts : List Term} {c : Comparison} :
    c ∈ comparisonsOfAll ts ↔ ∃ t ∈ ts, c ∈ t.comparisons := by
  induction ts with
  | nil => simp [comparisonsOfAll]
  | cons t ts ih => simp [comparisonsOfAll, ih]

/-- What fits in a group fits in its members. -/
theorem Fits.member {s : Span} {k : Connective} {ts : List Term} (h : (group s k ts).Fits)
    {t : Term} (ht : t ∈ ts) : t.Fits :=
  ⟨fun l hl => h.1 l (mem_literalsOfAll.2 ⟨t, ht, hl⟩),
    fun c hc => h.2 c (mem_comparisonsOfAll.2 ⟨t, ht, hc⟩)⟩

theorem SpellsDoubles.member {s : Span} {k : Connective} {ts : List Term}
    (h : (group s k ts).SpellsDoubles) {t : Term} (ht : t ∈ ts) : t.SpellsDoubles :=
  fun d hd => h d (mem_literalsOfAll.2 ⟨t, ht, hd⟩)

/-! ## Elements -/

theorem allToXml_eq (ts : List Term) : allToXml ts = ts.flatMap toXml := by
  induction ts with
  | nil => rfl
  | cons t ts ih => rw [allToXml, ih, List.flatMap_cons]

theorem allOfXml_append (xs ys : List Xml) : allOfXml (xs ++ ys) = allOfXml xs ++ allOfXml ys := by
  induction xs with
  | nil => rfl
  | cons x xs ih =>
    rw [List.cons_append, allOfXml, allOfXml, ih]
    split <;> rfl

/-- A term that says something is one element, any other none. -/
theorem toXml_eq (t : Term) : t.isValid = false ∧ t.toXml = [] ∨
    t.isValid = true ∧ ∃ name attributes content, t.toXml = [.element name attributes content] := by
  cases t with
  | invalid s => exact Or.inl ⟨rfl, rfl⟩
  | types s us =>
    cases us with
    | nil => exact Or.inr ⟨rfl, _, _, _, by rw [toXml]⟩
    | cons u us => exact Or.inr ⟨rfl, _, _, _, by rw [toXml]⟩
  | _ => exact Or.inr ⟨rfl, _, _, _, by rw [toXml]⟩

/-- Terms are written as elements. -/
theorem isElement_of_mem_toXml {t : Term} {x : Xml} (h : x ∈ t.toXml) : x.isElement = true := by
  rcases t.toXml_eq with ⟨-, hnil⟩ | ⟨-, name, attributes, content, hone⟩
  · rw [hnil] at h
    contradiction
  · rw [hone, List.mem_singleton] at h
    rw [h]
    rfl

theorem separate_of_isElement {xs : List Xml} (h : ∀ x ∈ xs, x.isElement = true) :
    xs.IsChain Xml.Separate :=
  (List.pairwise_of_forall_mem_list fun x hx _ _ => Or.inl (h x hx)).isChain

theorem isName_uri {u : String} : ∀ a ∈ [("uri", u)], Xml.isName a.1.toList = true := by
  rw [List.forall_mem_singleton]
  exact (rfl : Xml.isName "uri".toList = true)

/-- The element of a term shows all of its tree. -/
theorem isTidy_of_mem_toXml (t : Term) : ∀ x ∈ t.toXml, x.IsTidy := by
  have hwrapped {name : String} (hname : Xml.isName name.toList = true) {t : Term}
      (ih : ∀ x ∈ t.toXml, x.IsTidy) : (Xml.element name [] t.toXml).IsTidy :=
    .element _ _ _ hname (by simp) ih (separate_of_isElement fun x hx => isElement_of_mem_toXml hx)
  induction t with
  | invalid s => simp [toXml]
  | literal s l =>
    rw [toXml, List.forall_mem_singleton, textContent]
    split
    · exact .element _ _ _ rfl (isName_literalAttributes l) (by simp) (by simp)
    · rename_i hfull
      refine .element _ _ _ rfl (isName_literalAttributes l) ?_ (by simp)
      rw [List.forall_mem_singleton]
      exact .text _ (by simpa using hfull)
  | resource s u =>
    rw [toXml, List.forall_mem_singleton]
    exact .element _ _ _ rfl isName_uri (by simp) (by simp)
  | types s us =>
    cases us with
    | nil =>
      rw [toXml, List.forall_mem_singleton]
      exact .element _ _ _ rfl isName_uri (by simp) (by simp)
    | cons u us =>
      rw [toXml, List.forall_mem_singleton]
      refine .element _ _ _ rfl isName_uri ?_ (separate_of_isElement ?_)
      · rw [List.forall_mem_map]
        exact fun v _ => .element _ _ _ rfl isName_uri (by simp) (by simp)
      · rw [List.forall_mem_map]
        exact fun v _ => rfl
  | comparison s c v ih =>
    rw [toXml, List.forall_mem_singleton]
    exact .element _ _ _ rfl (isName_comparisonAttributes c) ih
      (separate_of_isElement fun x hx => isElement_of_mem_toXml hx)
  | negation s t ih =>
    rw [toXml, List.forall_mem_singleton]
    exact hwrapped rfl ih
  | optional s t ih =>
    rw [toXml, List.forall_mem_singleton]
    exact hwrapped rfl ih
  | group s k ts ih =>
    have hname : Xml.isName (groupName k).toList = true := by cases k <;> rfl
    rw [toXml, List.forall_mem_singleton, allToXml_eq]
    refine .element _ _ _ hname (by simp) ?_ (separate_of_isElement ?_)
    · intro x hx
      obtain ⟨t, ht, hx⟩ := List.mem_flatMap.1 hx
      exact ih t ht x hx
    · intro x hx
      obtain ⟨t, -, hx⟩ := List.mem_flatMap.1 hx
      exact isElement_of_mem_toXml hx

/-! ## Reading the elements -/

theorem textOf_textContent (s : String) : Xml.textOf (textContent s) = s := by
  rw [textContent]
  split
  · rename_i h
    simpa [Xml.textOf] using h.symm
  · simp [Xml.textOf, Xml.ownText]

/-- The types of a term are read back from the elements for them. -/
theorem alsoTypes_map (us : List Uri) :
    alsoTypes (us.map fun v => .element "also" [("uri", v.text)] []) = us := by
  induction us with
  | nil => rfl
  | cons u us ih =>
    rw [alsoTypes] at ih ⊢
    rw [List.map_cons, List.filterMap_cons, ih]
    rfl

/-- Nothing is recorded of an invalid term. -/
theorem recorded_of_not_isValid {t : Term} (h : t.isValid = false) : t.recorded = nothing := by
  cases t with
  | invalid s => rw [recorded]
  | _ => simp [isValid] at h

/-- The members that say something, if each member is read back. -/
theorem filter_allOfXml {ts : List Term}
    (h : ∀ t ∈ ts, allOfXml t.toXml = if t.isValid then [t.recorded] else []) :
    (allOfXml (allToXml ts)).filter isValid = recordedMembers ts := by
  induction ts with
  | nil => rfl
  | cons t ts ih =>
    rw [allToXml, allOfXml_append, List.filter_append, ih fun u hu => h u (by simp [hu]),
      h t (by simp), recordedMembers]
    cases hv : t.isValid with
    | false =>
      rw [recorded_of_not_isValid hv]
      rfl
    | true => cases hr : t.recorded.isValid <;> simp [hr]

/-- The first element of a term around which there is another, if the term is read back. -/
theorem aroundFirst_allOfXml (wrap : Term → Term) {t : Term}
    (h : allOfXml t.toXml = if t.isValid then [t.recorded] else []) :
    aroundFirst wrap (allOfXml t.toXml) = if t.recorded.isValid then wrap t.recorded else nothing := by
  rw [h]
  cases hv : t.isValid with
  | false =>
    rw [recorded_of_not_isValid hv]
    rfl
  | true => rfl

/-- The elements of a term are read back to what is recorded of it. -/
theorem allOfXml_toXml {t : Term} (hfits : t.Fits) (hdoubles : t.SpellsDoubles) :
    allOfXml t.toXml = if t.isValid then [t.recorded] else [] := by
  induction t with
  | invalid s => rw [toXml]; rfl
  | literal s l =>
    have hl : l ∈ (literal s l).literals := by simp [literals]
    have hread := literalOf_literalAttributes (hfits.1 l hl) fun d hd => hdoubles d (hd ▸ hl)
    rw [toXml, allOfXml, allOfXml, ofXml, textOf_textContent, hread]
    rfl
  | resource s u => rw [toXml]; rfl
  | types s us =>
    cases us with
    | nil => rw [toXml]; rfl
    | cons u us =>
      rw [toXml, allOfXml, allOfXml, ofXml, alsoTypes_map]
      rfl
  | comparison s c v ih =>
    have hc : c.Fits := hfits.2 c List.mem_cons_self
    have hv := ih ⟨hfits.1, fun d hd => hfits.2 d (List.mem_cons_of_mem c hd)⟩ hdoubles
    rw [toXml, allOfXml, allOfXml, ofXml, comparisonOf?_comparisonAttributes hc, hv]
    cases hvalid : v.isValid with
    | false =>
      rw [recorded, recorded_of_not_isValid hvalid]
      rfl
    | true =>
      rw [recorded]
      rfl
  | negation s t ih =>
    rw [toXml, allOfXml, allOfXml, ofXml, aroundFirst_allOfXml _ (ih hfits hdoubles), recorded]
    rfl
  | optional s t ih =>
    rw [toXml, allOfXml, allOfXml, ofXml, aroundFirst_allOfXml _ (ih hfits hdoubles), recorded]
    rfl
  | group s k ts ih =>
    have hmembers := filter_allOfXml fun t ht => ih t ht (hfits.member ht) (hdoubles.member ht)
    cases k with
    | and =>
      rw [toXml, groupName, allOfXml, allOfXml, ofXml, hmembers, recorded]
      rfl
    | or =>
      rw [toXml, groupName, allOfXml, allOfXml, ofXml, hmembers, recorded]
      rfl

/-! ## Reading the document -/

theorem ofMarkup_empty : ofMarkup "" = nothing := by
  simp [ofMarkup, Xml.read?, Xml.dropLastSpace, Xml.skipSpace, Xml.skipProlog?, Xml.tokens?,
    Xml.build?]

/-- A term is read back as it is recorded. -/
theorem ofMarkup_markup_eq {t : Term} (hfits : t.Fits) (hdoubles : t.SpellsDoubles) :
    ofMarkup t.markup = t.recorded := by
  have helements := allOfXml_toXml hfits hdoubles
  rcases t.toXml_eq with ⟨hv, hnil⟩ | ⟨hv, name, attributes, content, hone⟩
  · rw [markup, hnil, Xml.renderAll, ofMarkup_empty, recorded_of_not_isValid hv]
  · have htidy := isTidy_of_mem_toXml t (.element name attributes content) (by simp [hone])
    have htext : t.markup.toList = (Xml.element name attributes content).render.toList := by
      simp [markup, hone, Xml.renderAll]
    have hread : ofXml (.element name attributes content) = t.recorded := by
      simpa [hone, hv, allOfXml, Xml.isElement] using helements
    rw [ofMarkup, htext, Xml.read?_render htidy rfl]
    exact hread

/-! ## Reading twice -/

theorem mem_recordedMembers {ts : List Term} {u : Term} :
    u ∈ recordedMembers ts ↔ (∃ t ∈ ts, t.recorded = u) ∧ u.isValid = true := by
  rw [recordedMembers_eq, List.mem_filter, List.mem_map]

theorem recordedMembers_eq_self {ts : List Term}
    (h : ∀ t ∈ ts, t.recorded = t ∧ t.isValid = true) : recordedMembers ts = ts := by
  induction ts with
  | nil => rfl
  | cons t ts ih =>
    obtain ⟨ht, hv⟩ := h t (by simp)
    rw [recordedMembers, ht, if_pos hv, ih fun u hu => h u (by simp [hu])]

/-- Nothing more is lost the second time. -/
theorem recorded_recorded (t : Term) : t.recorded.recorded = t.recorded := by
  have hnothing : nothing.recorded = nothing := recorded_of_not_isValid rfl
  induction t with
  | invalid s => rw [recorded, hnothing]
  | literal s l => rw [recorded, ofLiteral, recorded, Literal.recorded_recorded, ofLiteral]
  | resource s u => rw [recorded, recorded]
  | types s us =>
    rw [recorded, recorded]
    cases us <;> rfl
  | comparison s c v ih => rw [recorded, recorded, ih, Comparison.recorded_recorded]
  | negation s t ih =>
    rw [recorded]
    split
    · rename_i hv
      rw [recorded, ih, if_pos hv]
    · exact hnothing
  | optional s t ih =>
    rw [recorded]
    split
    · rename_i hv
      rw [recorded, ih, if_pos hv]
    · exact hnothing
  | group s k ts ih =>
    rw [recorded, recorded, recordedMembers_eq_self]
    intro u hu
    obtain ⟨⟨t, ht, rfl⟩, hv⟩ := mem_recordedMembers.1 hu
    exact ⟨ih t ht, hv⟩

/-- The literals that are recorded come from literals of the term. -/
theorem mem_literals_recorded {t : Term} {l : Literal} (h : l ∈ t.recorded.literals) :
    ∃ m ∈ t.literals, m.recorded = l := by
  induction t with
  | invalid s => simp [recorded, nothing, literals] at h
  | literal s m =>
    rw [recorded, ofLiteral, literals, List.mem_singleton] at h
    exact ⟨m, by simp [literals], h.symm⟩
  | resource s u => simp [recorded, literals] at h
  | types s us => simp [recorded, literals] at h
  | comparison s c v ih =>
    rw [recorded, literals] at h
    exact ih h
  | negation s t ih =>
    rw [recorded] at h
    split at h
    · exact ih h
    · simp [nothing, literals] at h
  | optional s t ih =>
    rw [recorded] at h
    split at h
    · exact ih h
    · simp [nothing, literals] at h
  | group s k ts ih =>
    rw [recorded, literals, mem_literalsOfAll] at h
    obtain ⟨u, hu, hl⟩ := h
    obtain ⟨⟨t, ht, rfl⟩, -⟩ := mem_recordedMembers.1 hu
    obtain ⟨m, hm, rfl⟩ := ih t ht hl
    exact ⟨m, mem_literalsOfAll.2 ⟨t, ht, hm⟩, rfl⟩

theorem mem_comparisons_recorded {t : Term} {c : Comparison} (h : c ∈ t.recorded.comparisons) :
    ∃ d ∈ t.comparisons, d.recorded = c := by
  induction t with
  | invalid s => simp [recorded, nothing, comparisons] at h
  | literal s m => simp [recorded, ofLiteral, comparisons] at h
  | resource s u => simp [recorded, comparisons] at h
  | types s us => simp [recorded, comparisons] at h
  | comparison s d v ih =>
    rw [recorded, comparisons, List.mem_cons] at h
    rcases h with rfl | h
    · exact ⟨d, List.mem_cons_self, rfl⟩
    · obtain ⟨e, he, rfl⟩ := ih h
      exact ⟨e, List.mem_cons_of_mem d he, rfl⟩
  | negation s t ih =>
    rw [recorded] at h
    split at h
    · exact ih h
    · simp [nothing, comparisons] at h
  | optional s t ih =>
    rw [recorded] at h
    split at h
    · exact ih h
    · simp [nothing, comparisons] at h
  | group s k ts ih =>
    rw [recorded, comparisons, mem_comparisonsOfAll] at h
    obtain ⟨u, hu, hc⟩ := h
    obtain ⟨⟨t, ht, rfl⟩, -⟩ := mem_recordedMembers.1 hu
    obtain ⟨d, hd, rfl⟩ := ih t ht hc
    exact ⟨d, mem_comparisonsOfAll.2 ⟨t, ht, hd⟩, rfl⟩

theorem Fits.recorded {t : Term} (h : t.Fits) : t.recorded.Fits := by
  refine ⟨fun l hl => ?_, fun c hc => ?_⟩
  · obtain ⟨m, hm, rfl⟩ := mem_literals_recorded hl
    exact (h.1 m hm).recorded
  · obtain ⟨d, hd, rfl⟩ := mem_comparisons_recorded hc
    exact h.2 d hd

theorem SpellsDoubles.recorded {t : Term} (h : t.SpellsDoubles) : t.recorded.SpellsDoubles := by
  intro d hd
  obtain ⟨m, hm, hmd⟩ := mem_literals_recorded hd
  cases m with
  | double e =>
    obtain rfl : e = d := Literal.double.inj hmd
    exact h e hm
  | _ => simp [Literal.recorded] at hmd

/-- Reading the document of a term gives what is recorded of it. A term of which everything is recorded
is read back as it is, and writing and reading once more changes nothing. -/
theorem ofMarkup_markup {t : Term} (hfits : t.Fits) (hdoubles : t.SpellsDoubles) :
    ofMarkup t.markup = t.recorded ∧
      (t.recorded.same t = true → (ofMarkup t.markup).same t = true) ∧
      ofMarkup (ofMarkup t.markup).markup = ofMarkup t.markup := by
  have hread := ofMarkup_markup_eq hfits hdoubles
  refine ⟨hread, fun h => hread ▸ h, ?_⟩
  rw [hread, ofMarkup_markup_eq hfits.recorded hdoubles.recorded, recorded_recorded]

/-- Half a second into the leap second at the end of 2016, known to the minute. -/
def leapMoment : Moment :=
  { instant :=
      { date := ⟨2016, 12, 31, by decide, by decide, by decide, by decide, by decide, by decide⟩
        second := 86399
        nano := 1500000000
        second_lt := by decide
        nano_lt := by decide
        leap := by decide }
    precision := .minute }

/-- A group with something to lose in every member but the first two. -/
def lossyGroup : Term :=
  group ⟨0, 40⟩ .or
    [literal ⟨0, 9⟩ (.string " <é&\"> "), ofLiteral (.double ⟨0x3FB999999999999A⟩),
      literal ⟨9, 1⟩ (.dateTime leapMoment), optional .empty (negation .empty nothing),
      comparison ⟨11, 3⟩ { property := some ⟨"a:'b'"⟩, sortOrder := .descending } nothing,
      types .empty []]

theorem ofMarkup_lossyGroup : lossyGroup.Fits ∧ lossyGroup.SpellsDoubles ∧
    ofMarkup lossyGroup.markup = group .empty .or
      [ofLiteral (.string " <é&\"> "), ofLiteral (.double ⟨0x3FB999999999999A⟩),
        ofLiteral (.dateTime ⟨leapMoment.instant.withoutFraction, .minute⟩),
        comparison .empty { property := some ⟨"a:'b'"⟩ } nothing, types .empty [⟨""⟩]] := by
  have hfits : lossyGroup.Fits := by
    constructor
    · simp [lossyGroup, literals, literalsOfAll, nothing, ofLiteral, Literal.Fits]
    · simp [lossyGroup, comparisons, comparisonsOfAll, nothing, ofLiteral, Comparison.Fits,
        Text.int32Limit]
  have hdoubles : lossyGroup.SpellsDoubles := by
    intro d hd
    simp [lossyGroup, literals, literalsOfAll, nothing, ofLiteral] at hd
    rw [hd]
    decide +kernel
  exact ⟨hfits, hdoubles, (ofMarkup_markup hfits hdoubles).1.trans rfl⟩

end DesktopSearch.Term
