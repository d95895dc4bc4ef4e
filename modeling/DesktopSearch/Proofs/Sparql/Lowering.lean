import DesktopSearch.Sparql.Lowering

/-!
# Lowering that succeeds

A step of lowering `Produces` results of a kind when it succeeds in every state. The steps that choose
variables and searches always succeed; those that write the patterns of a comparison succeed when the
comparator and the value fit each other, and then write one pattern at least.
-/

namespace DesktopSearch.Sparql

/-! ## Steps -/

/-- The step succeeds in every state, with a result that satisfies `P`. -/
def Produces {α : Type} (P : α → Prop) (m : Lower α) : Prop :=
  ∀ s, ∃ a s', m s = some (a, s') ∧ P a

/-- The step succeeds in every state. -/
def Succeeds {α : Type} (m : Lower α) : Prop := Produces (fun _ => True) m

section Steps

variable {α β : Type} {P : α → Prop} {Q : β → Prop}

theorem produces_pure {a : α} (h : P a) : Produces P (pure a : Lower α) :=
  fun s => ⟨a, s, rfl, h⟩

theorem succeeds_pure (a : α) : Succeeds (pure a : Lower α) := produces_pure True.intro

/-- Steps that succeed one after the other succeed together, if the second can use what the first gives. -/
theorem Produces.bind {m : Lower α} {f : α → Lower β} (hm : Produces P m)
    (hf : ∀ a, P a → Produces Q (f a)) : Produces Q (m >>= f) := by
  intro s
  obtain ⟨a, s', hs, ha⟩ := hm s
  obtain ⟨b, s'', hs', hb⟩ := hf a ha s'
  refine ⟨b, s'', ?_, hb⟩
  change (m s).bind (fun r => f r.1 r.2) = _
  rw [hs]
  exact hs'

theorem Succeeds.bind {m : Lower α} {f : α → Lower β} (hm : Succeeds m)
    (hf : ∀ a, Produces Q (f a)) : Produces Q (m >>= f) :=
  Produces.bind hm fun a _ => hf a

/-- A group of its own succeeds if the step does, which is started with nothing in the scope. -/
theorem Produces.inGroup {m : Lower α} (h : Produces P m) : Produces P (inGroup m) := by
  intro s
  obtain ⟨a, s', hs, ha⟩ := h { s with scope := [] }
  exact ⟨a, { s' with scope := s.scope }, by rw [Sparql.inGroup, hs]; rfl, ha⟩

end Steps

theorem succeeds_freshVariable : Succeeds freshVariable := fun _ => ⟨_, _, rfl, True.intro⟩

theorem succeeds_bindProperty (p : Uri) (v : Variable) : Succeeds (bindProperty p v) :=
  fun _ => ⟨_, _, rfl, True.intro⟩

theorem succeeds_boundVariable? (p : Uri) : Succeeds (boundVariable? p) :=
  fun _ => ⟨_, _, rfl, True.intro⟩

theorem succeeds_addColumn (c : Column) : Succeeds (addColumn c) :=
  fun _ => ⟨_, _, rfl, True.intro⟩

theorem succeeds_addSortKey (k : SortKey) : Succeeds (addSortKey k) :=
  fun _ => ⟨_, _, rfl, True.intro⟩

theorem succeeds_addSearch (f : Search) : Succeeds (addSearch f) :=
  fun _ => ⟨_, _, rfl, True.intro⟩

/-! ## Variables -/

theorem succeeds_predicate (property : Option Uri) : Succeeds (predicate property) := by
  cases property with
  | none => exact succeeds_freshVariable.bind fun v => succeeds_pure _
  | some p => exact succeeds_pure _

theorem succeeds_propertyVariable (o : Ontology) (p : Uri) : Succeeds (propertyVariable o p) := by
  refine (succeeds_boundVariable? p).bind fun bound => ?_
  cases bound with
  | some v => exact succeeds_pure _
  | none =>
    refine succeeds_freshVariable.bind fun v => ?_
    dsimp only
    split
    · exact (succeeds_bindProperty p v).bind fun _ => succeeds_pure _
    · exact succeeds_pure _

theorem succeeds_plainVariable (o : Ontology) (c : Comparison) : Succeeds (plainVariable o c) := by
  rw [plainVariable]
  split
  · exact succeeds_propertyVariable o _
  · exact succeeds_freshVariable.bind fun v => succeeds_pure _

/-- The column of a named variable, and the variable itself or that of its aggregate. -/
theorem succeeds_valueVariable (o : Ontology) (c : Comparison) : Succeeds (valueVariable o c) := by
  rw [valueVariable]
  split
  · rename_i name _
    have hvalue (v : Variable × Bool × Expression) :
        Succeeds (do addColumn (.value (.named name)); return v) :=
      (succeeds_addColumn _).bind fun _ => succeeds_pure _
    have haggregate (a : Aggregate) (key : Expression) : Succeeds (do
        let v ← freshVariable
        addColumn (.aggregate a v (.named name))
        return (v, true, key)) :=
      succeeds_freshVariable.bind fun _ => (succeeds_addColumn _).bind fun _ => succeeds_pure _
    cases c.property with
    | none =>
      cases c.aggregate with
      | none => exact hvalue _
      | some a => exact haggregate a _
    | some p =>
      refine (succeeds_bindProperty p _).bind fun _ => ?_
      cases c.aggregate with
      | none => exact hvalue _
      | some a => exact haggregate a _
  · exact (succeeds_plainVariable o c).bind fun _ => succeeds_pure _

/-- Whatever a comparison is like, there is a variable for its value. -/
theorem succeeds_mainVariable (o : Ontology) (c : Comparison) : Succeeds (mainVariable o c) := by
  refine (succeeds_valueVariable o c).bind fun r => ?_
  obtain ⟨v, isFirst, key⟩ := r
  dsimp only
  split
  · have hkey : Succeeds (do addSortKey ⟨key, c.sortWeight, c.sortOrder⟩; return (v, isFirst)) :=
      (succeeds_addSortKey _).bind fun _ => succeeds_pure _
    split
    · exact (succeeds_addColumn _).bind fun _ => hkey
    · exact hkey
  · exact succeeds_pure _

/-- A text can always be searched for, with a score or without. -/
theorem succeeds_containsPattern (scoring : Bool) (v : Variable) (text : String) (counts : Bool) :
    Succeeds (containsPattern scoring v text counts) := by
  rw [containsPattern]
  dsimp only
  split
  · exact succeeds_pure _
  split
  · exact succeeds_pure _
  split
  · exact (succeeds_addSearch _).bind fun _ => succeeds_pure _
  · exact succeeds_freshVariable.bind fun _ => (succeeds_addSearch _).bind fun _ => succeeds_pure _

/-! ## Comparisons -/

/-- The step writes one pattern at least. -/
def Writes (m : Lower (List Pattern)) : Prop := Produces (· ≠ []) m

theorem succeeds_existence (x : Setting) (c : Comparison) (subject : Variable) :
    Succeeds (existence x c subject) := by
  refine (succeeds_predicate _).bind fun p => (succeeds_mainVariable _ c).bind fun r => ?_
  dsimp only
  split
  · exact succeeds_pure _
  split
  · exact succeeds_pure _
  · exact succeeds_pure _

theorem writes_literalComparison (x : Setting) (c : Comparison) (l : Literal)
    (subject : Variable) : Writes (literalComparison x c l subject) := by
  refine (succeeds_predicate _).bind fun p => ?_
  dsimp only
  split
  · exact produces_pure (by simp)
  refine (succeeds_mainVariable _ c).bind fun r => ?_
  obtain ⟨v, isFirst⟩ := r
  have hfilter (filter : Pattern) : (if isFirst = true then
      [.triple (.var subject) p (.var v), filter] else [filter]) ≠ [] := by split <;> simp
  dsimp only
  split
  · exact (succeeds_containsPattern _ _ _ _).bind fun filter => produces_pure (hfilter filter)
  · exact produces_pure (hfilter _)
  · exact produces_pure (hfilter _)

/-- Labels of resources can be tested for equality, or searched. -/
theorem writes_labelComparison (x : Setting) {c : Comparison} (l : Literal) (subject : Variable)
    (h : c.comparator = .equal ∨ c.comparator = .contains) :
    Writes (labelComparison x c l subject) := by
  refine (succeeds_predicate _).bind fun p => (succeeds_mainVariable _ c).bind fun r => ?_
  refine succeeds_freshVariable.bind fun label => ?_
  rcases h with h | h
  · simp only [h]
    exact produces_pure (by simp)
  · simp only [h]
    refine succeeds_freshVariable.bind fun text => ?_
    exact (succeeds_containsPattern _ _ _ _).bind fun _ => produces_pure (by simp)

/-- A comparison with a term writes a statement in front of the patterns of the term. -/
theorem writes_nestedComparison (x : Setting) (c : Comparison)
    {nested : Variable → Lower (List Pattern)} (subject : Variable) (h : ∀ v, Writes (nested v)) :
    Writes (nestedComparison x c nested subject) := by
  refine (succeeds_predicate _).bind fun p => (succeeds_mainVariable _ c).bind fun r => ?_
  exact (h r.1).inGroup.bind fun ps hps => produces_pure (by simp [hps])

/-! ## What a comparison may compare with -/

/-- The values of the property, if there is one, are no literals. -/
def LeadsToResources (o : Ontology) (c : Comparison) : Prop :=
  ∀ p ∈ c.property, o.literalRange? p = none

/-- A literal can be compared with: it is one of the values that the property has, or names one. -/
def TakesLiteral (o : Ontology) (c : Comparison) : Prop :=
  (∀ p ∈ c.property, (o.literalRange? p).isSome = true) ∨
    c.comparator = .equal ∨ c.comparator = .contains ∨ c.comparator = .regexp

variable {x : Setting} {c : Comparison} {nested : Variable → Lower (List Pattern)}

/-- A property that takes literals can be compared with any of them. -/
theorem writes_lowerComparison_literal (h : TakesLiteral x.ontology c) (s : Span) (l : Literal)
    (subject : Variable) : Writes (lowerComparison x c (.literal s l) nested subject) := by
  rw [lowerComparison, if_neg (by simp [Term.isValid])]
  split
  · exact writes_literalComparison x c l subject
  · rename_i hc
    rw [Bool.or_eq_true, not_or, Bool.not_eq_true, beq_iff_eq] at hc
    refine writes_labelComparison x l subject ?_
    rcases h with h | h | h | h
    · cases hp : c.property with
      | none => simp [comparesLiterals, hp, Term.literal?] at hc
      | some p => simp [comparesLiterals, hp, h p hp] at hc
    · exact Or.inl h
    · exact Or.inr h
    · exact absurd h hc.2

theorem comparesLiterals_of_leadsToResources (h : LeadsToResources x.ontology c)
    (hr : c.comparator ≠ .regexp) {value : Term} (hvalue : value.literal? = none) :
    (comparesLiterals x.ontology c value || c.comparator == .regexp) = false := by
  rw [Bool.or_eq_false_iff, beq_eq_false_iff_ne, comparesLiterals]
  refine ⟨?_, hr⟩
  split
  · rename_i p hp
    rw [h p hp]
    rfl
  · rw [hvalue]
    rfl

/-- A property that leads to resources can be compared with one. -/
theorem writes_lowerComparison_resource (h : LeadsToResources x.ontology c)
    (hr : c.comparator ≠ .regexp) (s : Span) (u : Uri) (subject : Variable) :
    Writes (lowerComparison x c (.resource s u) nested subject) := by
  rw [lowerComparison, if_neg (by simp [Term.isValid]),
    comparesLiterals_of_leadsToResources h hr rfl, if_neg (by simp)]
  exact (succeeds_predicate _).bind fun p => produces_pure (by simp)

/-- Being equal to what a term describes. -/
theorem writes_lowerComparison_nested (h : LeadsToResources x.ontology c)
    (he : c.comparator = .equal) {value : Term} (hvalid : value.isValid = true)
    (hnested : ∀ v, Writes (nested v)) (subject : Variable) :
    Writes (lowerComparison x c value nested subject) := by
  have hr : c.comparator ≠ .regexp := by simp [he]
  cases value with
  | invalid s => simp [Term.isValid] at hvalid
  | literal s l => exact writes_lowerComparison_literal (Or.inr (Or.inl he)) s l subject
  | resource s u => exact writes_lowerComparison_resource h hr s u subject
  | _ =>
    rw [lowerComparison, if_neg (by simp [Term.isValid]),
      comparesLiterals_of_leadsToResources h hr rfl, if_neg (by simp)]
    · exact writes_nestedComparison x c subject hnested
    · simp
    · simp

/-! ## Terms -/

theorem writes_lowerLiteral (x : Setting) (l : Literal) (subject : Variable) :
    Writes (lowerLiteral x l subject) :=
  succeeds_freshVariable.bind fun _ => succeeds_freshVariable.bind fun _ =>
    (succeeds_containsPattern _ _ _ _).bind fun _ => produces_pure (by simp)

theorem writes_lowerTypes (u : Uri) (us : List Uri) (subject : Variable) :
    Writes (lowerTypes (u :: us) subject) := by
  cases us with
  | nil => exact produces_pure (by simp)
  | cons v us => exact succeeds_freshVariable.bind fun _ => produces_pure (by simp)

/-- A conjunction is lowered if all its members are. -/
theorem succeeds_lowerAll {ts : List Term} (h : ∀ t ∈ ts, ∀ v, Succeeds (lower x t v))
    (subject : Variable) : Succeeds (lowerAll x ts subject) := by
  induction ts with
  | nil => exact succeeds_pure _
  | cons t ts ih =>
    exact (h t (by simp) subject).bind fun _ =>
      (ih fun u hu => h u (by simp [hu])).bind fun _ => succeeds_pure _

/-- Alternatives are lowered if all of them are. -/
theorem succeeds_lowerBranches {ts : List Term} (h : ∀ t ∈ ts, ∀ v, Succeeds (lower x t v))
    (subject : Variable) : Succeeds (lowerBranches x ts subject) := by
  induction ts with
  | nil => exact succeeds_pure _
  | cons t ts ih =>
    exact (h t (by simp) subject).inGroup.bind fun _ _ =>
      (ih fun u hu => h u (by simp [hu])).bind fun _ => succeeds_pure _

theorem Writes.succeeds {m : Lower (List Pattern)} (h : Writes m) : Succeeds m := fun s => by
  obtain ⟨ps, s', hs, -⟩ := h s
  exact ⟨ps, s', hs, True.intro⟩

/-- Terms that all hold write patterns if the first of them does. -/
theorem writes_lowerAll {t : Term} {ts : List Term} (ht : ∀ v, Writes (lower x t v))
    (hts : ∀ t ∈ ts, ∀ v, Succeeds (lower x t v)) (subject : Variable) :
    Writes (lowerAll x (t :: ts) subject) :=
  (ht subject).bind fun _ hps => (succeeds_lowerAll hts subject).bind fun _ =>
    produces_pure (by simp [hps])

/-- Alternatives are written as one pattern, even if there are none. -/
theorem writes_lower_oneOf {s : Span} {ts : List Term}
    (h : ∀ t ∈ ts, ∀ v, Succeeds (lower x t v)) (subject : Variable) :
    Writes (lower x (.group s .or ts) subject) :=
  (succeeds_lowerBranches h subject).bind fun _ => produces_pure (by simp)

/-- What says nothing is not lowered. -/
theorem isValid_of_lower {t : Term} {subject : Variable} {s : Lowering} {r : List Pattern × Lowering}
    (h : lower x t subject s = some r) : t.isValid = true := by
  cases t with
  | invalid span =>
    change none = _ at h
    contradiction
  | _ => rfl

end DesktopSearch.Sparql
