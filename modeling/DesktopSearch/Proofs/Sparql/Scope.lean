import DesktopSearch.Proofs.Sparql.Binding
import DesktopSearch.Proofs.Term.Basic
import DesktopSearch.Sparql.Lowering
import Mathlib.Data.List.Basic

/-!
# The scope and what has been written

The scope of a group tells which variables stand for which properties of the subject. It is in step with
the patterns that have been written (`InStep`) when each of its bindings is stated by one of them, so
that a variable found in the scope may be used without a statement of its own. Lowering a term keeps the
scope in step, and everything that the patterns of the term use is bound before (`tracks_lower`), as long
as comparisons with a named variable are neither aggregated nor inverted : their scope is told of the
name before, and they would state something else.
-/

namespace DesktopSearch.Sparql

open Sparql.Pattern

/-! ## Steps -/

/-- The variables that properties are bound to, the latest first. -/
abbrev Scope := List (Uri × Variable)

/-- Started in the scope, the step ends with a result and in a scope that satisfy `R`, if it succeeds. -/
def Yields {α : Type} (scope : Scope) (R : α → Scope → Prop) (m : Lower α) : Prop :=
  ∀ s a s', s.scope = scope → m s = some (a, s') → R a s'.scope

/-- The step leaves the scope alone, and its result satisfies `P`. -/
def LeavesScope {α : Type} (P : α → Prop) (m : Lower α) : Prop :=
  ∀ scope, Yields scope (fun a scope' => P a ∧ scope' = scope) m

section

variable {α β : Type} {scope : Scope} {P : α → Prop} {R : α → Scope → Prop} {Q : β → Scope → Prop}

/-- Two steps succeed if the first does and the second does where the first ends. -/
theorem bind_eq_some {m : Lower α} {f : α → Lower β} {s s' : Lowering} {b : β} :
    (m >>= f) s = some (b, s') ↔ ∃ a s₁, m s = some (a, s₁) ∧ f a s₁ = some (b, s') := by
  change (m s).bind (fun r => f r.1 r.2) = _ ↔ _
  simp [Option.bind_eq_some_iff]

theorem bind_of_eq_some {m : Lower α} {f : α → Lower β} {s s₁ : Lowering} {a : α}
    (h : m s = some (a, s₁)) : (m >>= f) s = f a s₁ := by
  change (m s).bind (fun r => f r.1 r.2) = _
  rw [h]
  rfl

theorem pure_eq_some {a b : α} {s s' : Lowering} :
    (pure a : Lower α) s = some (b, s') ↔ a = b ∧ s = s' := by
  change some (a, s) = _ ↔ _
  simp

/-- A group starts with nothing in the scope, and gives back the scope around it. -/
theorem inGroup_eq_some {m : Lower α} {s s' : Lowering} {a : α} :
    inGroup m s = some (a, s') ↔
      ∃ s₁, m { s with scope := [] } = some (a, s₁) ∧ s' = { s₁ with scope := s.scope } := by
  rw [inGroup, Option.map_eq_some_iff]
  constructor
  · rintro ⟨⟨b, s₁⟩, hm, h⟩
    obtain ⟨rfl, rfl⟩ := Prod.mk.inj h
    exact ⟨s₁, hm, rfl⟩
  · rintro ⟨s₁, hm, rfl⟩
    exact ⟨(a, s₁), hm, rfl⟩

theorem yields_pure {a : α} (h : R a scope) : Yields scope R (pure a) := by
  intro s b s' hscope hs
  obtain ⟨rfl, rfl⟩ := pure_eq_some.1 hs
  exact hscope ▸ h

theorem yields_failure : Yields scope R failure := by
  intro s a s' _ hs
  change none = _ at hs
  contradiction

/-- The second step starts in the scope that the first ends in. -/
theorem Yields.bind {m : Lower α} {f : α → Lower β} (hm : Yields scope R m)
    (hf : ∀ a scope', R a scope' → Yields scope' Q (f a)) : Yields scope Q (m >>= f) := by
  intro s b s' hscope hs
  obtain ⟨a, s₁, ha, hb⟩ := bind_eq_some.1 hs
  exact hf a s₁.scope (hm s a s₁ hscope ha) s₁ b s' rfl hb

theorem LeavesScope.bind {m : Lower α} {f : α → Lower β} (hm : LeavesScope P m)
    (hf : ∀ a, P a → Yields scope Q (f a)) : Yields scope Q (m >>= f) :=
  Yields.bind (hm scope) fun a _ ⟨ha, hscope⟩ => hscope ▸ hf a ha

theorem leavesScope_pure {a : α} (h : P a) : LeavesScope P (pure a) :=
  fun _ => yields_pure ⟨h, rfl⟩

/-- A group of its own starts in the empty scope, and leaves the scope around it alone. -/
theorem Yields.inGroup {m : Lower α} (h : Yields [] (fun a _ => P a) m) :
    LeavesScope P (inGroup m) := by
  intro scope s a s' hscope hs
  obtain ⟨s₁, hm, rfl⟩ := inGroup_eq_some.1 hs
  exact ⟨h _ a s₁ rfl hm, hscope⟩

end

theorem leavesScope_freshVariable : LeavesScope (fun _ => True) freshVariable := by
  intro scope s v s' hscope hs
  obtain ⟨-, rfl⟩ := Prod.mk.inj (Option.some.inj hs)
  exact ⟨True.intro, hscope⟩

theorem yields_bindProperty (scope : Scope) (p : Uri) (v : Variable) :
    Yields scope (fun _ scope' => scope' = (p, v) :: scope) (bindProperty p v) := by
  intro s a s' hscope hs
  obtain ⟨-, rfl⟩ := Prod.mk.inj (Option.some.inj hs)
  exact hscope ▸ rfl

/-- A variable is found where the scope binds the property to it. -/
theorem yields_boundVariable? (scope : Scope) (p : Uri) :
    Yields scope (fun bound scope' => scope' = scope ∧ ∀ v ∈ bound, (p, v) ∈ scope)
      (boundVariable? p) := by
  intro s bound s' hscope hs
  obtain ⟨rfl, rfl⟩ := Prod.mk.inj (Option.some.inj hs)
  refine ⟨hscope, fun v hv => ?_⟩
  obtain ⟨⟨q, w⟩, hfind, rfl⟩ := Option.map_eq_some_iff.1 hv
  have hq : q = p := by simpa using List.find?_some hfind
  exact hscope ▸ hq ▸ List.mem_of_find?_eq_some hfind

theorem leavesScope_addColumn (c : Column) : LeavesScope (fun _ => True) (addColumn c) := by
  intro scope s a s' hscope hs
  obtain ⟨-, rfl⟩ := Prod.mk.inj (Option.some.inj hs)
  refine ⟨True.intro, ?_⟩
  split <;> exact hscope

theorem leavesScope_addSortKey (k : SortKey) : LeavesScope (fun _ => True) (addSortKey k) := by
  intro scope s a s' hscope hs
  obtain ⟨-, rfl⟩ := Prod.mk.inj (Option.some.inj hs)
  exact ⟨True.intro, hscope⟩

theorem leavesScope_addSearch (f : Search) : LeavesScope (fun _ => True) (addSearch f) := by
  intro scope s a s' hscope hs
  obtain ⟨-, rfl⟩ := Prod.mk.inj (Option.some.inj hs)
  exact ⟨True.intro, hscope⟩

theorem leavesScope_predicate (property : Option Uri) :
    LeavesScope (fun p => ∀ q, property = some q → p = .uri q) (predicate property) := by
  cases property with
  | none => exact fun _ => leavesScope_freshVariable.bind fun v _ => leavesScope_pure (by simp) _
  | some p => exact leavesScope_pure (by simp)

/-- A search for a text uses the variable that it is for. -/
theorem leavesScope_containsPattern (scoring : Bool) (v : Variable) (text : String)
    (counts : Bool) :
    LeavesScope (fun p => ∀ known, v ∈ known → p.Guarded known)
      (containsPattern scoring v text counts) := by
  intro scope
  rw [containsPattern]
  dsimp only
  split
  · exact leavesScope_pure (fun known h => h) scope
  split
  · exact leavesScope_pure (fun known h => h) scope
  split
  · exact (leavesScope_addSearch _).bind fun _ _ => leavesScope_pure (fun known h => h) scope
  · exact leavesScope_freshVariable.bind fun _ _ =>
      (leavesScope_addSearch _).bind fun _ _ => leavesScope_pure (fun known h => h) scope

/-! ## The variable of a comparison -/

/-- A comparison with a named variable is neither aggregated nor inverted. -/
def NamesDirectly (c : Comparison) : Prop :=
  c.variableName ≠ none → c.aggregate = none ∧ c.inverted = false

/-- How the variable of a comparison is chosen : it is known in the scope, or new, or new and from now on
in the scope. -/
inductive Chosen (c : Comparison) (scope : Scope) : Variable × Bool → Scope → Prop
  | known (p : Uri) (v : Variable) (property : c.property = some p) (mem : (p, v) ∈ scope) :
    Chosen c scope (v, false) scope
  | new (v : Variable) : Chosen c scope (v, true) scope
  | bound (p : Uri) (v : Variable) (property : c.property = some p) (direct : c.inverted = false) :
    Chosen c scope (v, true) ((p, v) :: scope)

/-- A variable that is not new is in the scope. -/
theorem Chosen.mem_of_known {c : Comparison} {scope scope' : Scope} {v : Variable}
    (h : Chosen c scope (v, false) scope') : ∃ p, c.property = some p ∧ (p, v) ∈ scope := by
  cases h with
  | known p _ property mem => exact ⟨p, property, mem⟩

theorem Chosen.eq_of_inverted {c : Comparison} {scope scope' : Scope} {r : Variable × Bool}
    (h : Chosen c scope r scope') (hinverted : c.inverted = true) : scope' = scope := by
  cases h with
  | known | new => rfl
  | bound p v property direct => simp [hinverted] at direct

section

variable {c : Comparison} (o : Ontology) (scope : Scope)

theorem yields_propertyVariable {p : Uri} (hp : c.property = some p) (hdirect : c.inverted = false) :
    Yields scope (Chosen c scope) (propertyVariable o p) := by
  refine (yields_boundVariable? scope p).bind fun bound _ ⟨hscope, hbound⟩ => ?_
  subst hscope
  cases bound with
  | some v => exact yields_pure (.known p v hp (hbound v rfl))
  | none =>
    refine leavesScope_freshVariable.bind fun v _ => ?_
    dsimp only
    split
    · refine (yields_bindProperty _ p v).bind fun _ _ hscope => yields_pure ?_
      exact hscope ▸ .bound p v hp hdirect
    · exact yields_pure (.new v)

theorem yields_plainVariable : Yields scope (Chosen c scope) (plainVariable o c) := by
  rw [plainVariable]
  split
  · rename_i hp hdirect
    exact yields_propertyVariable o scope hp hdirect
  · exact leavesScope_freshVariable.bind fun v _ => yields_pure (.new v)

theorem yields_valueVariable (hc : NamesDirectly c) :
    Yields scope (fun r => Chosen c scope (r.1, r.2.1)) (valueVariable o c) := by
  rw [valueVariable]
  split
  · rename_i name hname
    obtain ⟨haggregate, hdirect⟩ := hc (by simp [hname])
    simp only [haggregate]
    cases hp : c.property with
    | none => exact (leavesScope_addColumn _).bind fun _ _ => yields_pure (.new _)
    | some p =>
      refine (yields_bindProperty scope p _).bind fun _ _ hscope => ?_
      refine (leavesScope_addColumn _).bind fun _ _ => yields_pure ?_
      exact hscope ▸ .bound p _ hp hdirect
  · exact (yields_plainVariable o scope).bind fun r _ hr => yields_pure hr

/-- The variable of a comparison is found in the scope, or it is new and bound in it. -/
theorem yields_mainVariable (hc : NamesDirectly c) :
    Yields scope (Chosen c scope) (mainVariable o c) := by
  refine (yields_valueVariable o scope hc).bind fun r scope' hr => ?_
  obtain ⟨v, isFirst, key⟩ := r
  dsimp only
  -- Sorting by the variable selects it and leaves the scope alone.
  split
  · have hkey : Yields scope' (Chosen c scope)
        (do addSortKey ⟨key, c.sortWeight, c.sortOrder⟩; return (v, isFirst)) :=
      (leavesScope_addSortKey _).bind fun _ _ => yields_pure hr
    split
    · exact (leavesScope_addColumn _).bind fun _ _ => hkey
    · exact hkey
  · exact yields_pure hr

end

/-! ## Scopes in step -/

/-- Every binding of the scope is stated of the subject by a pattern that has been written. -/
def InStep (subject : Variable) (scope : Scope) (written : List Pattern) : Prop :=
  ∀ e ∈ scope, ∃ p ∈ written, p.States subject e.1 e.2

/-- What holds where patterns about a subject are about to be written behind others : the subject and all
that the others bind is known, and the scope is in step with them. -/
structure Ready (known : List Variable) (written : List Pattern) (subject : Variable)
    (scope : Scope) : Prop where
  knows : subject ∈ known
  bound : ∀ p ∈ written, p.binds ⊆ known
  inStep : InStep subject scope written

section

variable {known : List Variable} {written ps : List Pattern} {subject v : Variable}
  {scope scope' : Scope}

theorem InStep.append (h : InStep subject scope written) (ps : List Pattern) :
    InStep subject scope (written ++ ps) := by
  intro e he
  obtain ⟨p, hp, hstates⟩ := h e he
  exact ⟨p, List.mem_append_left ps hp, hstates⟩

/-- At the start of a group nothing is written, and nothing needs to be. -/
theorem Ready.start (h : subject ∈ known) : Ready known [] subject [] :=
  ⟨h, by simp, by simp [InStep]⟩

/-- With more patterns written in step, what they bind is known. -/
theorem Ready.append (h : Ready known written subject scope)
    (hps : InStep subject scope' (written ++ ps)) :
    Ready (known ++ ps.flatMap binds) (written ++ ps) subject scope' := by
  refine ⟨List.mem_append_left _ h.knows, ?_, hps⟩
  rw [List.forall_mem_append]
  constructor
  · exact fun p hp => List.Subset.trans (h.bound p hp) (List.subset_append_left _ _)
  · intro p hp w hw
    exact List.mem_append_right _ (List.mem_flatMap.2 ⟨p, hp, hw⟩)

/-- The pattern states what the variable of a comparison about the subject is. -/
structure Introduces (c : Comparison) (subject v : Variable) (p : Pattern) : Prop where
  guarded : ∀ known, p.Guarded known
  binds : v ∈ p.binds
  states : ∀ q, c.property = some q → c.inverted = false → p.States subject q v

/-- The statement about the variable of a comparison that is written if the variable is new. -/
def headed (isFirst : Bool) (p : Pattern) : List Pattern := if isFirst then [p] else []

/-- With the statement about it in front if it is new, the variable of a comparison is known, and the scope
is in step. -/
theorem Ready.headed {c : Comparison} {isFirst : Bool} (h : Ready known written subject scope)
    (hchosen : Chosen c scope (v, isFirst) scope') {p : Pattern} (hp : Introduces c subject v p) :
    v ∈ known ++ (headed isFirst p).flatMap Pattern.binds ∧
      InStep subject scope' (written ++ Sparql.headed isFirst p) := by
  cases hchosen with
  | known q _ property mem =>
    obtain ⟨r, hr, hstates⟩ := h.inStep _ mem
    exact ⟨List.mem_append_left _ (h.bound r hr hstates.mem_binds), h.inStep.append _⟩
  | new _ => exact ⟨by simp [Sparql.headed, hp.binds], h.inStep.append _⟩
  | bound q _ property direct =>
    refine ⟨by simp [Sparql.headed, hp.binds], ?_⟩
    intro e he
    rcases List.mem_cons.1 he with rfl | he
    · exact ⟨p, by simp [Sparql.headed], hp.states q property direct⟩
    · exact h.inStep.append _ e he

/-- Patterns behind the statement about a new variable may use the variable. -/
theorem Ready.headed_append {c : Comparison} {isFirst : Bool}
    (h : Ready known written subject scope) (hchosen : Chosen c scope (v, isFirst) scope')
    {p : Pattern} (hp : Introduces c subject v p) (tail : List Pattern)
    (htail : ∀ known, v ∈ known → GuardedAll known tail) :
    GuardedAll known (Sparql.headed isFirst p ++ tail) ∧
      InStep subject scope' (written ++ (Sparql.headed isFirst p ++ tail)) := by
  obtain ⟨hv, hstep⟩ := h.headed hchosen hp
  refine ⟨guardedAll_append.2 ⟨?_, htail _ hv⟩, ?_⟩
  · cases isFirst with
    | false => trivial
    | true => exact guardedAll_singleton.2 (hp.guarded known)
  · rw [← List.append_assoc]
    exact hstep.append tail

end

/-! ## Comparisons -/

/-- Lowering about a subject, from wherever it is ready : all that the patterns use is bound before, and the
scope is in step with them afterwards. -/
def Tracks (subject : Variable) (m : Lower (List Pattern)) : Prop :=
  ∀ known written scope, Ready known written subject scope →
    Yields scope (fun ps scope' => GuardedAll known ps ∧ InStep subject scope' (written ++ ps)) m

/-- What is written in a group of its own needs the subject only. -/
theorem Tracks.inGroup {subject : Variable} {m : Lower (List Pattern)} (h : Tracks subject m) :
    LeavesScope (fun ps => ∀ known, subject ∈ known → GuardedAll known ps) (inGroup m) :=
  Yields.inGroup fun s ps s' hscope hm known hknows =>
    (h known [] [] (.start hknows) s ps s' hscope hm).1

variable {x : Setting} {c : Comparison} {subject : Variable}

theorem introduces_triple {v : Variable} {p : Node} (hp : ∀ q, c.property = some q → p = .uri q) :
    Introduces c subject v (.triple (.var subject) p (.var v)) where
  guarded _ := trivial
  binds := by simp [binds, Node.variables]
  states q hq _ := ⟨rfl, hp q hq, rfl⟩

/-- A statement uses nothing that has to be bound before. -/
theorem guarded_statement (known : List Variable) (p s o : Node) :
    (statement x c p s o).Guarded known := by
  rw [statement]
  split <;> trivial

theorem binds_statement (p s o : Node) :
    (statement x c p s o).binds = s.variables ++ p.variables ++ o.variables := by
  rw [statement]
  split <;> rfl

theorem introduces_statement {v : Variable} {p : Node}
    (hp : ∀ q, c.property = some q → p = .uri q) :
    Introduces c subject v (statement x c p (.var subject) (.var v)) where
  guarded known := guarded_statement known _ _ _
  binds := by simp [binds_statement, Node.variables]
  states q hq _ := by
    rw [statement]
    split <;> exact ⟨rfl, hp q hq, rfl⟩

theorem introduces_resourceStatement {v : Variable} {p : Node}
    (hp : ∀ q, c.property = some q → p = .uri q) :
    Introduces c subject v (resourceStatement x c p subject (.var v)) := by
  rw [resourceStatement]
  split
  · rename_i hinverted
    exact ⟨fun known => guarded_statement known _ _ _, by simp [binds_statement, Node.variables],
      by simp [hinverted]⟩
  · exact introduces_statement hp

theorem tracks_existence (hc : NamesDirectly c) : Tracks subject (existence x c subject) := by
  intro known written scope hready
  refine (leavesScope_predicate _).bind fun p hp => ?_
  refine (yields_mainVariable _ scope hc).bind fun r scope' hr => ?_
  obtain ⟨v, isFirst⟩ := r
  dsimp only
  split
  · rename_i hinverted
    refine yields_pure ⟨⟨trivial, trivial⟩, ?_⟩
    rw [hr.eq_of_inverted hinverted]
    exact hready.inStep.append _
  · have hhead := hready.headed_append hr (introduces_triple hp) [] fun _ _ => trivial
    cases isFirst <;> exact yields_pure hhead

/-- A filter stands behind the statement that binds its variable. -/
theorem tracks_literalComparison (hc : NamesDirectly c) (l : Literal) :
    Tracks subject (literalComparison x c l subject) := by
  intro known written scope hready
  refine (leavesScope_predicate _).bind fun p hp => ?_
  dsimp only
  split
  · exact yields_pure ⟨⟨trivial, trivial⟩, hready.inStep.append _⟩
  refine (yields_mainVariable _ scope hc).bind fun r scope' hr => ?_
  obtain ⟨v, isFirst⟩ := r
  have hfilter (filter : Pattern) (hfilter : ∀ known, v ∈ known → filter.Guarded known) :
      Yields scope' (fun ps scope' => GuardedAll known ps ∧ InStep subject scope' (written ++ ps))
        (return if isFirst then [.triple (.var subject) p (.var v), filter] else [filter]) := by
    have hhead := hready.headed_append hr (introduces_triple hp) [filter]
      fun known hv => guardedAll_singleton.2 (hfilter known hv)
    cases isFirst <;> exact yields_pure hhead
  dsimp only
  split
  · exact (leavesScope_containsPattern _ _ _ _).bind hfilter
  · exact hfilter _ fun _ hv => hv
  · exact hfilter _ fun _ hv => hv

theorem tracks_labelComparison (hc : NamesDirectly c) (l : Literal) :
    Tracks subject (labelComparison x c l subject) := by
  intro known written scope hready
  refine (leavesScope_predicate _).bind fun p hp => ?_
  refine (yields_mainVariable _ scope hc).bind fun r scope' hr => ?_
  obtain ⟨v, isFirst⟩ := r
  refine leavesScope_freshVariable.bind fun label _ => ?_
  dsimp only
  split
  · refine yields_pure (hready.headed_append hr (introduces_statement hp) _ fun _ _ => ?_)
    exact ⟨trivial, trivial⟩
  · refine leavesScope_freshVariable.bind fun text _ => ?_
    refine (leavesScope_containsPattern _ _ _ _).bind fun contains hcontains => ?_
    refine yields_pure (hready.headed_append hr (introduces_statement hp) _ fun _ _ => ?_)
    refine ⟨trivial, guardedAll_singleton.2 (hcontains _ ?_)⟩
    simp [binds, Node.variables]
  · exact yields_failure

theorem tracks_nestedComparison (hc : NamesDirectly c) {nested : Variable → Lower (List Pattern)}
    (h : ∀ v, Tracks v (nested v)) : Tracks subject (nestedComparison x c nested subject) := by
  intro known written scope hready
  refine (leavesScope_predicate _).bind fun p hp => ?_
  refine (yields_mainVariable _ scope hc).bind fun r scope' hr => ?_
  obtain ⟨v, isFirst⟩ := r
  refine (h v).inGroup.bind fun ps hps => yields_pure ?_
  exact hready.headed_append hr (introduces_resourceStatement hp) _ hps

/-- Whatever a comparison is lowered to, its patterns are guarded and the scope stays in step. -/
theorem tracks_lowerComparison (hc : NamesDirectly c) (value : Term)
    {nested : Variable → Lower (List Pattern)} (h : ∀ v, Tracks v (nested v)) :
    Tracks subject (lowerComparison x c value nested subject) := by
  unfold lowerComparison
  split
  · exact tracks_existence hc
  split
  · split
    · exact tracks_literalComparison hc _
    · exact fun _ _ _ _ => yields_failure
  split
  · exact tracks_labelComparison hc _
  · intro known written scope hready
    refine (leavesScope_predicate _).bind fun p _ => yields_pure ⟨?_, hready.inStep.append _⟩
    rw [guardedAll_singleton, resourceStatement]
    split <;> exact guarded_statement known _ _ _
  · exact tracks_nestedComparison hc h

/-! ## Terms -/

theorem tracks_lowerLiteral (l : Literal) : Tracks subject (lowerLiteral x l subject) := by
  intro known written scope hready
  refine leavesScope_freshVariable.bind fun property _ => ?_
  refine leavesScope_freshVariable.bind fun object _ => ?_
  refine (leavesScope_containsPattern _ _ _ _).bind fun contains hcontains => yields_pure ?_
  refine ⟨⟨trivial, guardedAll_singleton.2 (hcontains _ ?_)⟩, hready.inStep.append _⟩
  simp [binds, Node.variables]

theorem tracks_lowerTypes (us : List Uri) : Tracks subject (lowerTypes us subject) := by
  intro known written scope hready
  unfold lowerTypes
  split
  · exact yields_failure
  · exact yields_pure ⟨⟨trivial, trivial⟩, hready.inStep.append _⟩
  · refine leavesScope_freshVariable.bind fun v _ => yields_pure ⟨⟨trivial, ?_⟩, ?_⟩
    · rw [guardedAll_singleton]
      simp [Guarded, binds, Node.variables]
    · exact hready.inStep.append _

/-- Terms that all hold are lowered one behind the other. -/
theorem tracks_lowerAll {ts : List Term} (h : ∀ t ∈ ts, ∀ v, Tracks v (lower x t v)) :
    Tracks subject (lowerAll x ts subject) := by
  induction ts with
  | nil =>
    intro known written scope hready
    exact yields_pure ⟨trivial, hready.inStep.append []⟩
  | cons t ts ih =>
    rw [List.forall_mem_cons] at h
    intro known written scope hready
    rw [lowerAll]
    refine (h.1 subject known written scope hready).bind fun ps scope' ⟨hps, hstep⟩ => ?_
    refine (ih h.2 _ _ scope' (hready.append hstep)).bind fun qs scope'' ⟨hqs, hstep'⟩ => ?_
    refine yields_pure ⟨guardedAll_append.2 ⟨hps, hqs⟩, ?_⟩
    rw [← List.append_assoc]
    exact hstep'

/-- Alternatives are guarded one beside the other, since none of them sees what another binds. -/
theorem leavesScope_lowerBranches {ts : List Term} (h : ∀ t ∈ ts, ∀ v, Tracks v (lower x t v)) :
    LeavesScope (fun ps => ∀ known, subject ∈ known → GuardedEach known ps)
      (lowerBranches x ts subject) := by
  induction ts with
  | nil => exact leavesScope_pure fun _ _ => trivial
  | cons t ts ih =>
    rw [List.forall_mem_cons] at h
    intro scope
    rw [lowerBranches]
    refine (h.1 subject).inGroup.bind fun ps hps => (ih h.2).bind fun qs hqs => yields_pure ⟨?_, rfl⟩
    exact fun known hknows => ⟨hps known hknows, hqs known hknows⟩

/-- A pattern whose braces hold what is written in a group of its own. -/
theorem tracks_inBraces {m : Lower (List Pattern)} {p : List Pattern → Pattern}
    (h : Tracks subject m) (hp : ∀ known ps, GuardedAll known ps → (p ps).Guarded known) :
    Tracks subject (do return [p (← inGroup m)]) := by
  intro known written scope hready
  refine h.inGroup.bind fun ps hps => yields_pure ⟨?_, hready.inStep.append _⟩
  exact guardedAll_singleton.2 (hp known ps (hps known hready.knows))

/-- Lowering a term uses nothing that is not bound before, and keeps the scope in step. -/
theorem tracks_lower (t : Term) (h : ∀ s c v, t.Part (.comparison s c v) → NamesDirectly c)
    (subject : Variable) : Tracks subject (lower x t subject) := by
  induction t generalizing subject with
  | invalid s => exact fun _ _ _ _ => yields_failure
  | literal s l => exact tracks_lowerLiteral l
  | resource s u =>
    intro known written scope hready
    exact yields_pure ⟨guardedAll_singleton.2 hready.knows, hready.inStep.append _⟩
  | types s us => exact tracks_lowerTypes us
  | comparison s c v ih =>
    rw [lower]
    refine tracks_lowerComparison (h s c v .self) v (ih fun s c w hw => h s c w ?_)
    exact hw.of_child (by simp)
  | negation s t ih =>
    rw [lower]
    refine tracks_inBraces (ih (fun s c w hw => h s c w ?_) subject) fun _ _ hps => hps
    exact hw.of_child (by simp)
  | optional s t ih =>
    rw [lower]
    refine tracks_inBraces (ih (fun s c w hw => h s c w ?_) subject) fun _ _ hps => hps
    exact hw.of_child (by simp)
  | group s k ts ih =>
    have hts : ∀ t ∈ ts, ∀ v, Tracks v (lower x t v) := fun t ht v =>
      ih t ht (fun s c w hw => h s c w (hw.of_child ht)) v
    cases k with
    | and =>
      rw [lower]
      exact tracks_lowerAll hts
    | or =>
      intro known written scope hready
      rw [lower]
      refine (leavesScope_lowerBranches hts).bind fun ps hps => yields_pure ⟨?_, hready.inStep.append _⟩
      exact guardedAll_singleton.2 (hps known hready.knows)

end DesktopSearch.Sparql
