import DesktopSearch.Proofs.Sparql.Everywhere
import DesktopSearch.Proofs.Sparql.Scope
import DesktopSearch.Proofs.Sparql.Trace
import DesktopSearch.Proofs.Term.Markup

/-!
# What patterns are made of

Beside the variables that are made up, the patterns of a term hold nothing but what the term gives for
them : the names of its variables and the texts that it searches for (`Material`). A step of lowering
`Makes` its result of this material when every variable in it is one of the material or has been made up,
in this step or before, and when the step has a trace. `makes_lower` says so of whole terms.
-/

namespace DesktopSearch.Sparql

open Sparql.Pattern

/-! ## Material -/

/-- The names and the searched texts that patterns may hold. -/
structure Material where
  names : String → Prop
  texts : String → Prop

/-- The variables of a selected column. -/
def Column.variables : Column → List Variable
  | value v => [v]
  | aggregate _ v alias_ => [v, alias_]

/-- The variable of an expression. -/
def Expression.variable : Expression → Variable
  | value v | aggregate _ v => v

/-- The text that a pattern searches for. -/
def Pattern.searched? : Pattern → Option String
  | searches _ t _ => some t
  | _ => none

namespace Material

variable (m : Material)

/-- The variable is the result, has one of the names, or is one of the first that are made up. -/
def Has (used : Nat) : Variable → Prop
  | .result => True
  | .generated n => 0 < n ∧ n ≤ used
  | .named name => m.names name

/-- The pattern holds such variables, and a text of the material if it searches for one. -/
structure Fits (used : Nat) (p : Pattern) : Prop where
  known : ∀ v ∈ p.ownVariables, m.Has used v
  text : ∀ t ∈ p.searched?, m.texts t

/-- All that has been decided is made of the material. -/
structure Covers (s : Lowering) : Prop where
  scope : ∀ e ∈ s.scope, m.Has s.used e.2
  columns : ∀ c ∈ s.columns, ∀ v ∈ c.variables, m.Has s.used v
  sortKeys : ∀ k ∈ s.sortKeys, m.Has s.used k.expression.variable
  searches : ∀ f ∈ s.searches, m.Has s.used f.variable_ ∧ (∀ v ∈ f.score, m.Has s.used v) ∧
    m.texts f.text

variable {m}

/-- Variables that have been made up stay so. -/
theorem Has.mono {n k : Nat} {v : Variable} (h : m.Has n v) (hle : n ≤ k) : m.Has k v := by
  cases v with
  | generated i => exact ⟨h.1, h.2.trans hle⟩
  | _ => exact h

/-- Without variables and texts of its own a pattern is braces. -/
theorem fits_of_ownVariables_eq_nil {n : Nat} {p : Pattern} (hv : p.ownVariables = [])
    (ht : p.searched? = none) : m.Fits n p :=
  ⟨by simp [hv], by simp [ht]⟩

theorem Fits.mono {n k : Nat} {p : Pattern} (h : m.Fits n p) (hle : n ≤ k) : m.Fits k p :=
  ⟨fun v hv => (h.known v hv).mono hle, h.text⟩

/-- What has been decided is made of the material as long as nothing is decided anew. -/
theorem Covers.mono {s s' : Lowering} (h : m.Covers s) (hle : s.used ≤ s'.used)
    (hscope : s'.scope = s.scope) (hcolumns : s'.columns = s.columns)
    (hkeys : s'.sortKeys = s.sortKeys) (hsearches : s'.searches = s.searches) : m.Covers s' where
  scope e he := (h.scope e (hscope ▸ he)).mono hle
  columns c hc v hv := (h.columns c (hcolumns ▸ hc) v hv).mono hle
  sortKeys k hk := (h.sortKeys k (hkeys ▸ hk)).mono hle
  searches f hf :=
    have hf := h.searches f (hsearches ▸ hf)
    ⟨hf.1.mono hle, fun v hv => (hf.2.1 v hv).mono hle, hf.2.2⟩

theorem covers_start : m.Covers {} := ⟨by simp, by simp, by simp, by simp⟩

end Material

/-! ## Steps -/

/-- Started when `n` variables are made up, the step has a trace and keeps to the material, and its result
satisfies `Q` together with the number of variables that are made up then. -/
def Makes {α : Type} (m : Material) (n : Nat) (Q : Nat → α → Prop) (step : Lower α) : Prop :=
  ∀ s a s', s.used = n → m.Covers s → step s = some (a, s') →
    (∃ vs, Trace step s vs a s') ∧ m.Covers s' ∧ Q s'.used a

section

variable {α β : Type} {m : Material} {n : Nat} {P : Nat → α → Prop} {Q : Nat → β → Prop}

theorem makes_pure {a : α} (h : P n a) : Makes m n P (pure a) := by
  intro s b s' hn hs hstep
  obtain ⟨rfl, rfl⟩ := pure_eq_some.1 hstep
  exact ⟨⟨[], .pure a s⟩, hs, hn ▸ h⟩

/-- A step that fails makes nothing. -/
theorem makes_failure : Makes m n P failure := by
  intro s a s' _ _ hstep
  change none = _ at hstep
  contradiction

/-- Steps may use what the steps in front of them have made up. -/
theorem Makes.bind {step : Lower α} {f : α → Lower β} (hstep : Makes m n P step)
    (hf : ∀ a k, n ≤ k → P k a → Makes m k Q (f a)) : Makes m n Q (step >>= f) := by
  intro s b s' hn hs h
  obtain ⟨a, s₁, ha, hb⟩ := bind_eq_some.1 h
  obtain ⟨⟨vs, htrace⟩, hs₁, hP⟩ := hstep s a s₁ hn hs ha
  have hle : n ≤ s₁.used := hn ▸ htrace.used_le
  obtain ⟨⟨ws, hrest⟩, hs', hQ⟩ := hf a s₁.used hle hP s₁ b s' rfl hs₁ hb
  exact ⟨⟨vs ++ ws, htrace.bind hrest⟩, hs', hQ⟩

/-- A group of its own forgets its bindings, but not the variables that it has made up. -/
theorem Makes.inGroup {step : Lower α} (h : Makes m n P step) : Makes m n P (inGroup step) := by
  intro s a s' hn hs hstep
  obtain ⟨s₁, hinner, rfl⟩ := inGroup_eq_some.1 hstep
  have hstart : m.Covers { s with scope := [] } := ⟨by simp, hs.columns, hs.sortKeys, hs.searches⟩
  obtain ⟨⟨vs, htrace⟩, hs₁, hP⟩ := h { s with scope := [] } a s₁ hn hstart hinner
  refine ⟨⟨vs, htrace.inGroup⟩, ?_, hP⟩
  exact ⟨fun e he => (hs.scope e he).mono htrace.used_le, hs₁.columns, hs₁.sortKeys, hs₁.searches⟩

end

section

variable {m : Material} {n : Nat}

/-- A fresh variable has just been made up. -/
theorem makes_freshVariable : Makes m n m.Has freshVariable := by
  intro s v s' _ hs hstep
  obtain ⟨rfl, rfl⟩ := Prod.mk.inj (Option.some.inj hstep)
  refine ⟨⟨_, .freshVariable s⟩, hs.mono (Nat.le_succ _) rfl rfl rfl rfl, ?_⟩
  exact ⟨Nat.succ_pos _, Nat.le_refl _⟩

theorem makes_bindProperty (p : Uri) {v : Variable} (hv : m.Has n v) :
    Makes m n (fun _ _ => True) (bindProperty p v) := by
  rintro s ⟨⟩ s' rfl hs hstep
  obtain ⟨-, rfl⟩ := Prod.mk.inj (Option.some.inj hstep)
  refine ⟨⟨_, .bindProperty p v s⟩, ⟨?_, hs.columns, hs.sortKeys, hs.searches⟩, trivial⟩
  rw [List.forall_mem_cons]
  exact ⟨hv, hs.scope⟩

/-- A variable in the scope is one of those that the state covers. -/
theorem makes_boundVariable? (p : Uri) :
    Makes m n (fun k bound => ∀ v ∈ bound, m.Has k v) (boundVariable? p) := by
  intro s bound s' _ hs hstep
  obtain ⟨rfl, rfl⟩ := Prod.mk.inj (Option.some.inj hstep)
  refine ⟨⟨_, .boundVariable? p s⟩, hs, fun v hv => ?_⟩
  obtain ⟨e, he, rfl⟩ := Option.map_eq_some_iff.1 hv
  exact hs.scope e (List.mem_of_find?_eq_some he)

theorem makes_addColumn {c : Column} (hc : ∀ v ∈ c.variables, m.Has n v) :
    Makes m n (fun _ _ => True) (addColumn c) := by
  rintro s ⟨⟩ s' rfl hs hstep
  obtain ⟨-, rfl⟩ := Prod.mk.inj (Option.some.inj hstep)
  refine ⟨⟨_, .addColumn c s⟩, ?_, trivial⟩
  split
  · exact hs
  · refine ⟨hs.scope, ?_, hs.sortKeys, hs.searches⟩
    rw [List.forall_mem_append, List.forall_mem_singleton]
    exact ⟨hs.columns, hc⟩

theorem makes_addSortKey {k : SortKey} (hk : m.Has n k.expression.variable) :
    Makes m n (fun _ _ => True) (addSortKey k) := by
  rintro s ⟨⟩ s' rfl hs hstep
  obtain ⟨-, rfl⟩ := Prod.mk.inj (Option.some.inj hstep)
  refine ⟨⟨_, .addSortKey k s⟩, ⟨hs.scope, hs.columns, ?_, hs.searches⟩, trivial⟩
  rw [List.forall_mem_append, List.forall_mem_singleton]
  exact ⟨hs.sortKeys, hk⟩

theorem makes_addSearch {f : Search} (hv : m.Has n f.variable_) (hscore : ∀ v ∈ f.score, m.Has n v)
    (ht : m.texts f.text) : Makes m n (fun _ _ => True) (addSearch f) := by
  rintro s ⟨⟩ s' rfl hs hstep
  obtain ⟨-, rfl⟩ := Prod.mk.inj (Option.some.inj hstep)
  refine ⟨⟨_, .addSearch f s⟩, ⟨hs.scope, hs.columns, hs.sortKeys, ?_⟩, trivial⟩
  rw [List.forall_mem_append, List.forall_mem_singleton]
  exact ⟨hs.searches, hv, hscore, ht⟩

/-! ## The variable of a comparison -/

theorem makes_predicate (property : Option Uri) :
    Makes m n (fun k p => ∀ v ∈ p.variables, m.Has k v) (predicate property) := by
  cases property with
  | none => exact makes_freshVariable.bind fun v k _ hv => makes_pure (by simpa [Node.variables])
  | some p => exact makes_pure (by simp [Node.variables])

theorem makes_propertyVariable (o : Ontology) (p : Uri) :
    Makes m n (fun k r => m.Has k r.1) (propertyVariable o p) := by
  refine (makes_boundVariable? p).bind fun bound k _ hbound => ?_
  cases bound with
  | some v => exact makes_pure (hbound v rfl)
  | none =>
    refine makes_freshVariable.bind fun v k' _ hv => ?_
    dsimp only
    split
    · exact (makes_bindProperty p hv).bind fun _ _ hle _ => makes_pure (hv.mono hle)
    · exact makes_pure hv

theorem makes_plainVariable (o : Ontology) (c : Comparison) :
    Makes m n (fun k r => m.Has k r.1) (plainVariable o c) := by
  rw [plainVariable]
  split
  · exact makes_propertyVariable o _
  · exact makes_freshVariable.bind fun v k _ hv => makes_pure hv

/-- The name of the comparison, if it has one, is of the material. -/
def Material.Names (m : Material) (c : Comparison) : Prop :=
  ∀ name ∈ c.variableName, m.names name

theorem makes_valueVariable (o : Ontology) {c : Comparison} (hc : m.Names c) :
    Makes m n (fun k r => m.Has k r.1 ∧ m.Has k r.2.2.variable) (valueVariable o c) := by
  rw [valueVariable]
  split
  · rename_i name hname
    have hnamed (k : Nat) : m.Has k (.named name) := hc name hname
    have hvalue {k : Nat} :
        Makes m k (fun k r => m.Has k r.1 ∧ m.Has k r.2.2.variable)
          (do addColumn (.value (.named name))
              return (Variable.named name, true, Expression.value (.named name))) :=
      (makes_addColumn (by simpa [Column.variables] using hnamed k)).bind fun _ _ _ _ =>
        makes_pure ⟨hnamed _, hnamed _⟩
    have haggregate (a : Aggregate) {k : Nat} :
        Makes m k (fun k r => m.Has k r.1 ∧ m.Has k r.2.2.variable)
          (do let v ← freshVariable
              addColumn (.aggregate a v (.named name))
              return (v, true, Expression.value (.named name))) :=
      makes_freshVariable.bind fun v k' _ hv =>
        (makes_addColumn (by simpa [Column.variables] using ⟨hv, hnamed k'⟩)).bind
          fun _ _ hle _ => makes_pure ⟨hv.mono hle, hnamed _⟩
    cases c.property with
    | none =>
      cases c.aggregate with
      | none => exact hvalue
      | some a => exact haggregate a
    | some p =>
      refine (makes_bindProperty p (hnamed n)).bind fun _ _ _ _ => ?_
      cases c.aggregate with
      | none => exact hvalue
      | some a => exact haggregate a
  · refine (makes_plainVariable o c).bind fun r k _ hr => makes_pure ⟨hr, ?_⟩
    split <;> exact hr

/-- The variable of a comparison has a name of the material, or is made up. -/
theorem makes_mainVariable (o : Ontology) {c : Comparison} (hc : m.Names c) :
    Makes m n (fun k r => m.Has k r.1) (mainVariable o c) := by
  refine (makes_valueVariable o hc).bind fun r k _ hr => ?_
  obtain ⟨v, isFirst, key⟩ := r
  dsimp only
  split
  · have hkey {k' : Nat} (hle : k ≤ k') : Makes m k' (fun k r => m.Has k r.1)
        (do addSortKey ⟨key, c.sortWeight, c.sortOrder⟩; return (v, isFirst)) :=
      (makes_addSortKey (hr.2.mono hle)).bind fun _ _ hle' _ =>
        makes_pure (hr.1.mono (hle.trans hle'))
    split
    · exact (makes_addColumn (by simpa [Column.variables, Expression.variable] using hr.2)).bind
        fun _ _ hle _ => hkey hle
    · exact hkey (Nat.le_refl k)
  · exact makes_pure hr.1

/-! ## Comparisons -/

/-- The text without the blanks at its ends is of the material, unless it has a wildcard that is too early
for a search. -/
def Material.Searches (m : Material) (text : String) : Prop :=
  hasEarlyWildcard (Text.trim text.toList) = false → m.texts (String.ofList (Text.trim text.toList))

/-- A search is for a text of the material, in a variable that is known. -/
theorem makes_containsPattern (scoring : Bool) {v : Variable} {text : String} (counts : Bool)
    (hv : m.Has n v) (ht : m.Searches text) :
    Makes m n (fun k p => p.Everywhere (m.Fits k)) (containsPattern scoring v text counts) := by
  rw [containsPattern]
  dsimp only
  split
  · exact makes_pure ⟨by simpa [Pattern.ownVariables, binds, uses] using hv, by simp [searched?]⟩
  rename_i hearly
  replace ht := ht (by simpa using hearly)
  have hplain {k : Nat} (hle : n ≤ k) : m.Fits k
      (.searches v (String.ofList (Text.trim text.toList)) none) :=
    ⟨by simpa [Pattern.ownVariables] using hv.mono hle, by simpa [searched?] using ht⟩
  split
  · exact makes_pure (hplain (Nat.le_refl n))
  split
  · exact (makes_addSearch hv (by simp) ht).bind fun _ _ hle _ => makes_pure (hplain hle)
  · refine makes_freshVariable.bind fun score k hle hscore => ?_
    refine (makes_addSearch (hv.mono hle) (by simpa using hscore) ht).bind fun _ k' hle' _ => ?_
    refine makes_pure ⟨?_, by simpa [searched?] using ht⟩
    simpa [Pattern.ownVariables] using ⟨(hv.mono hle).mono hle', hscore.mono hle'⟩

variable {x : Setting} {c : Comparison} {subject : Variable}

/-- A triple is made of what its nodes are made of. -/
theorem fits_triple {s p o : Node} (hs : ∀ v ∈ s.variables, m.Has n v)
    (hp : ∀ v ∈ p.variables, m.Has n v) (ho : ∀ v ∈ o.variables, m.Has n v) :
    m.Fits n (.triple s p o) := by
  refine ⟨?_, by simp [searched?]⟩
  simp only [Pattern.ownVariables, binds, uses, List.append_nil, List.forall_mem_append]
  exact ⟨⟨hs, hp⟩, ho⟩

theorem fits_statement {s p o : Node} (hs : ∀ v ∈ s.variables, m.Has n v)
    (hp : ∀ v ∈ p.variables, m.Has n v) (ho : ∀ v ∈ o.variables, m.Has n v) :
    (statement x c p s o).Everywhere (m.Fits n) := by
  rw [statement]
  split
  · refine ⟨?_, by simp [searched?]⟩
    simp only [Pattern.ownVariables, binds, uses, List.append_nil, List.forall_mem_append]
    exact ⟨⟨hs, hp⟩, ho⟩
  · exact fits_triple hs hp ho

theorem fits_resourceStatement {p o : Node} (hsubject : m.Has n subject)
    (hp : ∀ v ∈ p.variables, m.Has n v) (ho : ∀ v ∈ o.variables, m.Has n v) :
    (resourceStatement x c p subject o).Everywhere (m.Fits n) := by
  have hs : ∀ v ∈ (Node.var subject).variables, m.Has n v := by simpa [Node.variables]
  rw [resourceStatement]
  split
  · exact fits_statement ho hp hs
  · exact fits_statement hs hp ho

/-- The step makes patterns of the material. -/
abbrev MakesPatterns (m : Material) (n : Nat) (step : Lower (List Pattern)) : Prop :=
  Makes m n (fun k ps => EverywhereAll (m.Fits k) ps) step

theorem makes_existence (hc : m.Names c) (hsubject : m.Has n subject) :
    MakesPatterns m n (existence x c subject) := by
  refine (makes_predicate _).bind fun p k hle hp => ?_
  refine (makes_mainVariable _ hc).bind fun r k' hle' hr => ?_
  have hs : ∀ v ∈ (Node.var subject).variables, m.Has k' v := by
    simpa [Node.variables] using hsubject.mono (hle.trans hle')
  have ho : ∀ v ∈ (Node.var r.1).variables, m.Has k' v := by simpa [Node.variables] using hr
  have hp' : ∀ v ∈ p.variables, m.Has k' v := fun v hv => (hp v hv).mono hle'
  dsimp only
  split
  · exact makes_pure (everywhereAll_singleton.2 (fits_triple ho hp' hs))
  split
  · exact makes_pure (everywhereAll_singleton.2 (fits_triple hs hp' ho))
  · exact makes_pure trivial

theorem makes_literalComparison (hc : m.Names c) {l : Literal} (hl : m.Searches l.text)
    (hsubject : m.Has n subject) : MakesPatterns m n (literalComparison x c l subject) := by
  refine (makes_predicate _).bind fun p k hle hp => ?_
  have hs {k' : Nat} (hle' : k ≤ k') : ∀ v ∈ (Node.var subject).variables, m.Has k' v := by
    simpa [Node.variables] using hsubject.mono (hle.trans hle')
  dsimp only
  split
  · exact makes_pure (everywhereAll_singleton.2
      (fits_triple (hs (Nat.le_refl k)) hp (by simp [Node.variables])))
  refine (makes_mainVariable _ hc).bind fun r k' hle' hr => ?_
  obtain ⟨v, isFirst⟩ := r
  -- The filter is made behind the variable, and may make up one of its own.
  have hpatterns (filter : Pattern) {j : Nat} (hj : k' ≤ j) (h : filter.Everywhere (m.Fits j)) :
      EverywhereAll (m.Fits j) (if isFirst = true then
        [.triple (.var subject) p (.var v), filter] else [filter]) := by
    have hhead : m.Fits j (.triple (.var subject) p (.var v)) :=
      fits_triple (hs (hle'.trans hj)) (fun w hw => (hp w hw).mono (hle'.trans hj))
        (by simpa [Node.variables] using hr.mono hj)
    split
    · exact ⟨hhead, everywhereAll_singleton.2 h⟩
    · exact everywhereAll_singleton.2 h
  have hfilter {filter : Pattern} (hv : filter.ownVariables = [v]) (ht : filter.searched? = none) :
      m.Fits k' filter := ⟨by simpa [hv] using hr, by simp [ht]⟩
  dsimp only
  split
  · exact (makes_containsPattern _ _ hr hl).bind fun filter j hj h =>
      makes_pure (hpatterns filter hj h)
  · exact makes_pure (hpatterns _ (Nat.le_refl k') (hfilter rfl rfl))
  · exact makes_pure (hpatterns _ (Nat.le_refl k') (hfilter rfl rfl))

theorem makes_labelComparison (hc : m.Names c) {l : Literal} (hl : m.Searches l.text)
    (hsubject : m.Has n subject) : MakesPatterns m n (labelComparison x c l subject) := by
  refine (makes_predicate _).bind fun p k hle hp => ?_
  refine (makes_mainVariable _ hc).bind fun r k' hle' hr => ?_
  obtain ⟨v, isFirst⟩ := r
  refine makes_freshVariable.bind fun label j hj hlabel => ?_
  have hnode {i : Nat} {w : Variable} (hw : m.Has i w) : ∀ u ∈ (Node.var w).variables, m.Has i u := by
    simpa [Node.variables]
  have hhead {i : Nat} (hi : k' ≤ i) : EverywhereAll (m.Fits i)
      (if isFirst = true then [statement x c p (.var subject) (.var v)] else []) := by
    split
    · refine everywhereAll_singleton.2 (fits_statement (hnode ?_) ?_ (hnode (hr.mono hi)))
      · exact hsubject.mono (hle.trans (hle'.trans hi))
      · exact fun w hw => (hp w hw).mono (hle'.trans hi)
    · trivial
  dsimp only
  split
  · refine makes_pure (everywhereAll_append.2 ⟨hhead hj, everywhereAll_singleton.2 ?_⟩)
    exact fits_triple (hnode (hr.mono hj)) (hnode hlabel) (by simp [Node.variables])
  · refine makes_freshVariable.bind fun text i hi htext => ?_
    refine (makes_containsPattern _ _ htext hl).bind fun contains i' hi' hcontains => ?_
    refine makes_pure (everywhereAll_append.2 ⟨hhead (hj.trans (hi.trans hi')), ?_, ?_⟩)
    · exact fits_triple (hnode (hr.mono (hj.trans (hi.trans hi'))))
        (hnode (hlabel.mono (hi.trans hi'))) (hnode (htext.mono hi'))
    · exact everywhereAll_singleton.2 hcontains
  · exact makes_failure

/-- A comparison with a term is made of what the term gives. -/
theorem makes_nestedComparison (hc : m.Names c) {nested : Variable → Lower (List Pattern)}
    (h : ∀ k v, m.Has k v → MakesPatterns m k (nested v)) (hsubject : m.Has n subject) :
    MakesPatterns m n (nestedComparison x c nested subject) := by
  refine (makes_predicate _).bind fun p k hle hp => ?_
  refine (makes_mainVariable _ hc).bind fun r k' hle' hr => ?_
  obtain ⟨v, isFirst⟩ := r
  refine (h k' v hr).inGroup.bind fun ps j hj hps => ?_
  refine makes_pure (everywhereAll_append.2 ⟨?_, hps⟩)
  split
  · refine everywhereAll_singleton.2 (fits_resourceStatement ?_ ?_ ?_)
    · exact hsubject.mono (hle.trans (hle'.trans hj))
    · exact fun w hw => (hp w hw).mono (hle'.trans hj)
    · simpa [Node.variables] using hr.mono hj
  · trivial

/-- Whatever a comparison is lowered to is made of its name, of the text of its value and of what its value
gives. -/
theorem makes_lowerComparison (hc : m.Names c) {value : Term}
    (hvalue : ∀ l ∈ value.literal?, m.Searches l.text) {nested : Variable → Lower (List Pattern)}
    (h : ∀ k v, m.Has k v → MakesPatterns m k (nested v)) (hsubject : m.Has n subject) :
    MakesPatterns m n (lowerComparison x c value nested subject) := by
  unfold lowerComparison
  split
  · exact makes_existence hc hsubject
  split
  · split
    · exact makes_literalComparison hc (hvalue _ ‹_›) hsubject
    · exact makes_failure
  split
  · exact makes_labelComparison hc (hvalue _ rfl) hsubject
  · refine (makes_predicate _).bind fun p k hle hp => makes_pure (everywhereAll_singleton.2 ?_)
    exact fits_resourceStatement (hsubject.mono hle) hp (by simp [Node.variables])
  · exact makes_nestedComparison hc h hsubject

/-! ## Terms -/

theorem makes_lowerLiteral {l : Literal} (hl : m.Searches l.text) (hsubject : m.Has n subject) :
    MakesPatterns m n (lowerLiteral x l subject) := by
  refine makes_freshVariable.bind fun property k hle hproperty => ?_
  refine makes_freshVariable.bind fun object k' hle' hobject => ?_
  refine (makes_containsPattern _ _ hobject hl).bind fun contains j hj hcontains => ?_
  refine makes_pure ⟨fits_triple ?_ ?_ ?_, everywhereAll_singleton.2 hcontains⟩
  · simpa [Node.variables] using hsubject.mono (hle.trans (hle'.trans hj))
  · simpa [Node.variables] using hproperty.mono (hle'.trans hj)
  · simpa [Node.variables] using hobject.mono hj

theorem makes_lowerTypes (us : List Uri) (hsubject : m.Has n subject) :
    MakesPatterns m n (lowerTypes us subject) := by
  unfold lowerTypes
  split
  · exact makes_failure
  · refine makes_pure (everywhereAll_singleton.2 ⟨?_, by simp [searched?]⟩)
    simpa [Pattern.ownVariables, binds, uses, Node.variables] using hsubject
  · refine makes_freshVariable.bind fun v k hle hv => makes_pure ⟨⟨?_, by simp [searched?]⟩, ?_⟩
    · simpa [Pattern.ownVariables, binds, uses, Node.variables] using ⟨hsubject.mono hle, hv⟩
    · refine everywhereAll_singleton.2 ⟨?_, by simp [searched?]⟩
      simpa [Pattern.ownVariables, binds, uses] using hv

/-- The term names variables and searches for texts of the material. -/
structure Material.Gives (m : Material) (t : Term) : Prop where
  names : ∀ c ∈ t.comparisons, m.Names c
  texts : ∀ l ∈ t.literals, m.Searches l.text

/-- All names and all texts. -/
def Material.all : Material := ⟨fun _ => True, fun _ => True⟩

theorem Material.gives_all (t : Term) : Material.all.Gives t :=
  ⟨fun _ _ _ _ => trivial, fun _ _ _ => trivial⟩

/-- What a group gives is given by its members. -/
theorem Material.Gives.member {s : Span} {k : Connective} {ts : List Term}
    (h : m.Gives (.group s k ts)) {t : Term} (ht : t ∈ ts) : m.Gives t :=
  ⟨fun c hc => h.names c (Term.mem_comparisonsOfAll.2 ⟨t, ht, hc⟩),
    fun l hl => h.texts l (Term.mem_literalsOfAll.2 ⟨t, ht, hl⟩)⟩

/-- The patterns of a conjunction are made of what its members are made of. -/
theorem makes_lowerAll {ts : List Term} (h : ∀ t ∈ ts, ∀ k v, m.Has k v →
    MakesPatterns m k (lower x t v)) (hsubject : m.Has n subject) :
    MakesPatterns m n (lowerAll x ts subject) := by
  induction ts generalizing n with
  | nil => exact makes_pure trivial
  | cons t ts ih =>
    rw [List.forall_mem_cons] at h
    refine (h.1 n subject hsubject).bind fun ps k hle hps => ?_
    refine (ih h.2 (hsubject.mono hle)).bind fun qs k' hle' hqs => ?_
    exact makes_pure (everywhereAll_append.2 ⟨hps.mono fun _ hp => hp.mono hle', hqs⟩)

theorem makes_lowerBranches {ts : List Term} (h : ∀ t ∈ ts, ∀ k v, m.Has k v →
    MakesPatterns m k (lower x t v)) (hsubject : m.Has n subject) :
    MakesPatterns m n (lowerBranches x ts subject) := by
  induction ts generalizing n with
  | nil => exact makes_pure trivial
  | cons t ts ih =>
    rw [List.forall_mem_cons] at h
    refine (h.1 n subject hsubject).inGroup.bind fun ps k hle hps => ?_
    refine (ih h.2 (hsubject.mono hle)).bind fun qs k' hle' hqs => ?_
    refine makes_pure ⟨⟨?_, hps.mono fun _ hp => hp.mono hle'⟩, hqs⟩
    exact Material.fits_of_ownVariables_eq_nil rfl rfl

/-- Lowering a term makes patterns of what the term gives for them. -/
theorem makes_lower (t : Term) (h : m.Gives t) (hsubject : m.Has n subject) :
    MakesPatterns m n (lower x t subject) := by
  induction t generalizing n subject with
  | invalid s => exact makes_failure
  | literal s l => exact makes_lowerLiteral (h.texts l (by simp [Term.literals])) hsubject
  | resource s u =>
    refine makes_pure (everywhereAll_singleton.2 ⟨?_, by simp [searched?]⟩)
    simpa [Pattern.ownVariables, binds, uses] using hsubject
  | types s us => exact makes_lowerTypes us hsubject
  | comparison s c v ih =>
    have hv : m.Gives v := ⟨fun d hd => h.names d (List.mem_cons_of_mem c hd), h.texts⟩
    refine makes_lowerComparison (h.names c List.mem_cons_self) (fun l hl => ?_)
      (fun k w hw => ih hv hw) hsubject
    cases v with
    | literal r l' =>
      obtain rfl := Option.some.inj hl
      exact hv.texts l' (by simp [Term.literals])
    | _ => simp [Term.literal?] at hl
  | negation s t ih =>
    refine (ih ⟨h.names, h.texts⟩ hsubject).inGroup.bind fun ps k _ hps => ?_
    exact makes_pure (everywhereAll_singleton.2 ⟨Material.fits_of_ownVariables_eq_nil rfl rfl, hps⟩)
  | optional s t ih =>
    refine (ih ⟨h.names, h.texts⟩ hsubject).inGroup.bind fun ps k _ hps => ?_
    exact makes_pure (everywhereAll_singleton.2 ⟨Material.fits_of_ownVariables_eq_nil rfl rfl, hps⟩)
  | group s k ts ih =>
    have hts : ∀ t ∈ ts, ∀ k v, m.Has k v → MakesPatterns m k (lower x t v) :=
      fun t ht k v hv => ih t ht (h.member ht) hv
    cases k with
    | and => exact makes_lowerAll hts hsubject
    | or =>
      refine (makes_lowerBranches hts hsubject).bind fun ps k _ hps => ?_
      exact makes_pure (everywhereAll_singleton.2 ⟨Material.fits_of_ownVariables_eq_nil rfl rfl, hps⟩)

/-- Whatever a term gives, lowering it about the result makes patterns of names and texts. -/
theorem makes_lower_result (x : Setting) (t : Term) (n : Nat) :
    MakesPatterns .all n (lower x t .result) :=
  makes_lower t (Material.gives_all t) trivial

end

end DesktopSearch.Sparql
