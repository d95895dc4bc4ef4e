import DesktopSearch.Ontology.Desktop
import DesktopSearch.Proofs.Sparql.Scope
import Mathlib.Logic.Relation
import Mathlib.Tactic.FinCases

/-!
# Places of a term

Lowering a term goes through the terms below it. A `Place` is one of them with what has come about when
its turn comes : the subject that it is about, the decisions that have been made, and the patterns that
stand in front of it. `Place.Step` goes from a place to the next ones below; where it goes into braces,
the scope starts anew.

At every place that a term leads to, the subject is bound by a pattern in front of it, and a variable
that is used again is one that the property of the subject was bound to in the same braces
(`bound_before_used`).
-/

namespace DesktopSearch.Sparql

open Sparql.Pattern Vocabulary

/-- A term whose turn has come. -/
structure Place where
  term : Term
  /-- What the term is about. -/
  subject : Variable
  state : Lowering
  /-- The patterns in front of it in the same braces. -/
  group : List Pattern
  /-- The patterns in front of these braces, in the braces around them. -/
  around : List Pattern

namespace Place

/-- The place of a term that is lowered as a whole. -/
def start (t : Term) : Place := ⟨t, .result, {}, [], []⟩

/-- The place of a term in braces of its own. -/
def inBraces (q : Place) (t : Term) (state : Lowering) : Place :=
  ⟨t, q.subject, { state with scope := [] }, [], q.around ++ q.group⟩

/-- The place of the value of a comparison, which is about the variable of the comparison and stands behind
patterns that state the variable. -/
def about (q : Place) (t : Term) (v : Variable) (state : Lowering) (ps : List Pattern) : Place :=
  ⟨t, v, { state with scope := [] }, q.group ++ ps, q.around⟩

/-- Whether the value of a comparison is described by patterns of its own. -/
def IsDescribed (x : Setting) (c : Comparison) (value : Term) : Prop :=
  value.isValid = true ∧ value.resource? = none ∧
    (comparesLiterals x.ontology c value || c.comparator == .regexp) = false

/-- Where lowering the term of a place goes on below it. -/
inductive Step (x : Setting) (q : Place) : Place → Prop
  | member {s : Span} {before after : List Term} {t : Term} {ps : List Pattern} {state : Lowering}
    (term : q.term = .group s .and (before ++ t :: after))
    (front : lowerAll x before q.subject q.state = some (ps, state)) :
    Step x q ⟨t, q.subject, state, q.group ++ ps, q.around⟩
  | branch {s : Span} {before after : List Term} {t : Term} {ps : List Pattern} {state : Lowering}
    (term : q.term = .group s .or (before ++ t :: after))
    (front : lowerBranches x before q.subject q.state = some (ps, state)) :
    Step x q (q.inBraces t state)
  | negation {s : Span} {t : Term} (term : q.term = .negation s t) : Step x q (q.inBraces t q.state)
  | optional {s : Span} {t : Term} (term : q.term = .optional s t) : Step x q (q.inBraces t q.state)
  /-- A literal of a property that leads to resources is a label of one of them. -/
  | label {s r : Span} {c : Comparison} {l : Literal} {p : Node} {v : Variable} {isFirst : Bool}
    {between state : Lowering} (term : q.term = .comparison s c (.literal r l))
    (described : IsDescribed x c (.literal r l))
    (predicate : predicate c.property q.state = some (p, between))
    (variable_ : mainVariable x.ontology c between = some ((v, isFirst), state)) :
    Step x q (q.about (.literal r l) v state
      (headed isFirst (statement x c p (.var q.subject) (.var v))))
  /-- Any other value is a description of what the property leads to. -/
  | nested {s : Span} {c : Comparison} {t : Term} {p : Node} {v : Variable} {isFirst : Bool}
    {between state : Lowering} (term : q.term = .comparison s c t)
    (described : IsDescribed x c t) (unlabelled : t.literal? = none)
    (predicate : predicate c.property q.state = some (p, between))
    (variable_ : mainVariable x.ontology c between = some ((v, isFirst), state)) :
    Step x q (q.about t v state (headed isFirst (resourceStatement x c p q.subject (.var v))))

variable {x : Setting} {q r : Place}

/-! ## What stands in front of a place -/

/-- What is known at a place. -/
def known (q : Place) : List Variable := [.result] ++ (q.around ++ q.group).flatMap binds

/-- What holds at every place : the comparisons below name their variables directly, and the place is ready
for patterns about its subject. -/
structure Sound (q : Place) : Prop where
  named : ∀ s c v, q.term.Part (.comparison s c v) → NamesDirectly c
  ready : Ready q.known q.group q.subject q.state.scope

theorem sound_start {t : Term} (h : ∀ s c v, t.Part (.comparison s c v) → NamesDirectly c) :
    (start t).Sound :=
  ⟨h, .start (by simp [start, known])⟩

theorem Sound.inBraces (h : q.Sound) {t : Term} (ht : t ∈ q.term.children) (state : Lowering) :
    (q.inBraces t state).Sound where
  named s c v hv := h.named s c v (hv.of_child ht)
  ready := .start (by simpa [Place.inBraces, known] using h.ready.knows)

/-- The value of a comparison, behind the statement about its variable if that is new. -/
theorem Sound.about (h : q.Sound) {s : Span} {c : Comparison} {t : Term} {p : Node}
    {v : Variable} {isFirst : Bool} {between state : Lowering}
    (hterm : q.term = .comparison s c t)
    (hp : predicate c.property q.state = some (p, between))
    (hv : mainVariable x.ontology c between = some ((v, isFirst), state)) {statement : Pattern}
    (hstatement : (∀ property, c.property = some property → p = .uri property) →
      Introduces c q.subject v statement) :
    (q.about t v state (headed isFirst statement)).Sound := by
  have hc : NamesDirectly c := h.named s c t (hterm ▸ .self)
  obtain ⟨hproperty, hscope⟩ := leavesScope_predicate c.property _ _ _ _ rfl hp
  have hchosen := yields_mainVariable x.ontology _ hc _ _ _ hscope hv
  obtain ⟨hknows, hstep⟩ := h.ready.headed hchosen (hstatement hproperty)
  have hknown : (q.about t v state (headed isFirst statement)).known =
      q.known ++ (headed isFirst statement).flatMap binds := by
    simp [known, Place.about, List.append_assoc]
  refine ⟨fun s c w hw => h.named s c w (hw.of_child ?_), ?_⟩
  · rw [hterm]
    exact List.mem_singleton_self t
  · rw [hknown]
    exact ⟨hknows, (h.ready.append hstep).bound, by simp [Place.about, InStep]⟩

theorem mem_children_group {s : Span} {k : Connective} {before after : List Term} {t : Term}
    (hterm : q.term = .group s k (before ++ t :: after)) :
    ∀ u ∈ before ++ t :: after, u ∈ q.term.children := by
  rw [hterm]
  exact fun u hu => hu

/-- One step keeps a place sound. -/
theorem Step.sound (h : Step x q r) (hq : q.Sound) : r.Sound := by
  cases h with
  | @member s before after t ps state hterm front =>
    have hmem := mem_children_group hterm
    have hbefore : ∀ u ∈ before, ∀ v, Tracks v (lower x u v) := fun u hu =>
      tracks_lower u fun s c v hv => hq.named s c v (hv.of_child (hmem u (by simp [hu])))
    obtain ⟨-, hstep⟩ := tracks_lowerAll hbefore _ _ _ hq.ready _ _ _ rfl front
    refine ⟨fun s c v hv => hq.named s c v (hv.of_child (hmem t (by simp))), ?_⟩
    have hknown : known ⟨t, q.subject, state, q.group ++ ps, q.around⟩ =
        q.known ++ ps.flatMap binds := by
      simp [known, List.append_assoc]
    rw [hknown]
    exact hq.ready.append hstep
  | branch hterm _ => exact hq.inBraces (mem_children_group hterm _ (by simp)) _
  | negation hterm | optional hterm =>
    refine hq.inBraces ?_ _
    rw [hterm]
    exact List.mem_singleton_self _
  | label hterm _ hp hv => exact hq.about hterm hp hv introduces_statement
  | nested hterm _ _ hp hv => exact hq.about hterm hp hv introduces_resourceStatement

/-! ## Where the patterns of a place are written -/

/-- The patterns in front of a place stand so among the patterns of the whole term, and those of its own
term stand behind them. The patterns for a label are not those of its literal. -/
def IsWritten (x : Setting) (ps : List Pattern) (q : Place) : Prop :=
  ∃ rest, Inside ps q.around (q.group ++ rest) ∧
    (q.term.literal? = none →
      ∃ qs after state, rest = qs ++ after ∧ lower x q.term q.subject q.state = some (qs, state))

variable {ps : List Pattern}

theorem IsWritten.exists_lowered (h : q.IsWritten x ps) (hterm : q.term.literal? = none) :
    ∃ qs after state, Inside ps q.around (q.group ++ (qs ++ after)) ∧
      lower x q.term q.subject q.state = some (qs, state) := by
  obtain ⟨rest, hinside, hlower⟩ := h
  obtain ⟨qs, after, state, rfl, h⟩ := hlower hterm
  exact ⟨qs, after, state, hinside, h⟩

theorem isWritten_start {t : Term} {state : Lowering} (h : lower x t .result {} = some (ps, state)) :
    (start t).IsWritten x ps :=
  ⟨ps, .self, fun _ => ⟨ps, [], state, by simp, h⟩⟩

/-- The term of braces is written between them. -/
theorem isWritten_inBraces {p : Pattern} {after body : List Pattern} {t : Term}
    {state state' : Lowering} (h : Inside ps q.around (q.group ++ p :: after))
    (hbody : body ∈ p.bodies)
    (ht : lower x t q.subject { state with scope := [] } = some (body, state')) :
    (q.inBraces t state).IsWritten x ps :=
  ⟨body, .inner h hbody, fun _ => ⟨body, [], state', by simp, ht⟩⟩

/-- A term that is lowered to nothing but braces is written between them. -/
theorem isWritten_inOwnBraces {braces : List Pattern → Pattern} {t : Term}
    {qs after : List Pattern} {s' : Lowering} (hbraces : ∀ body, body ∈ (braces body).bodies)
    (hinside : Inside ps q.around (q.group ++ (qs ++ after)))
    (h : (do return [braces (← inGroup (lower x t q.subject))] : Lower (List Pattern)) q.state =
      some (qs, s')) : (q.inBraces t q.state).IsWritten x ps := by
  obtain ⟨own, s₁, hown, h⟩ := bind_eq_some.1 h
  obtain ⟨rfl, rfl⟩ := pure_eq_some.1 h
  obtain ⟨s₂, hown, -⟩ := inGroup_eq_some.1 hown
  exact isWritten_inBraces hinside (hbraces own) hown

/-- Terms that are lowered one behind the other write their patterns one behind the other. -/
theorem exists_of_append (all : List Term → Lower (List Pattern))
    (one : Term → Lower (List Pattern)) (hnil : all [] = pure [])
    (hcons : ∀ t ts, all (t :: ts) = do return (← one t) ++ (← all ts)) {ts us : List Term}
    {s s' : Lowering} {qs : List Pattern} (h : all (ts ++ us) s = some (qs, s')) :
    ∃ ps s₁ rs, all ts s = some (ps, s₁) ∧ all us s₁ = some (rs, s') ∧ qs = ps ++ rs := by
  induction ts generalizing s qs with
  | nil => exact ⟨[], s, qs, by rw [hnil]; rfl, h, rfl⟩
  | cons t ts ih =>
    rw [List.cons_append, hcons] at h
    obtain ⟨ps, s₁, hps, h⟩ := bind_eq_some.1 h
    obtain ⟨rest, s₂, hrest, h⟩ := bind_eq_some.1 h
    obtain ⟨rfl, rfl⟩ := pure_eq_some.1 h
    obtain ⟨ps', s₃, rs, hps', hrs, rfl⟩ := ih hrest
    refine ⟨ps ++ ps', s₃, rs, ?_, hrs, (List.append_assoc ..).symm⟩
    rw [hcons]
    exact bind_eq_some.2 ⟨ps, s₁, hps, bind_eq_some.2 ⟨ps', s₃, hps', rfl⟩⟩

/-- The patterns of a member stand behind those of the members in front of it. -/
theorem exists_of_lowerAll {before after : List Term} {t : Term} {v : Variable}
    {s s' state : Lowering} {ps qs : List Pattern} (hfront : lowerAll x before v s = some (ps, state))
    (h : lowerAll x (before ++ t :: after) v s = some (qs, s')) :
    ∃ own s₁ rest, lower x t v state = some (own, s₁) ∧ qs = ps ++ (own ++ rest) := by
  obtain ⟨ps', state', rs, hps, hrs, rfl⟩ := exists_of_append (fun ts => lowerAll x ts v)
    (fun t => lower x t v) rfl (fun _ _ => rfl) h
  obtain ⟨rfl, rfl⟩ := Prod.mk.inj (Option.some.inj (hfront.symm.trans hps))
  obtain ⟨own, s₁, hown, h⟩ := bind_eq_some.1 hrs
  obtain ⟨rest, s₂, -, h⟩ := bind_eq_some.1 h
  obtain ⟨rfl, -⟩ := pure_eq_some.1 h
  exact ⟨own, s₁, rest, hown, rfl⟩

/-- The patterns of an alternative stand in a block of the union. -/
theorem exists_of_lowerBranches {before after : List Term} {t : Term} {v : Variable}
    {s s' state : Lowering} {ps qs : List Pattern}
    (hfront : lowerBranches x before v s = some (ps, state))
    (h : lowerBranches x (before ++ t :: after) v s = some (qs, s')) :
    ∃ own s₁, lower x t v { state with scope := [] } = some (own, s₁) ∧ .block own ∈ qs := by
  obtain ⟨ps', state', rs, hps, hrs, rfl⟩ :=
    exists_of_append (fun ts => lowerBranches x ts v)
      (fun t => do return [.block (← inGroup (lower x t v))]) rfl (fun _ _ => by
        rw [bind_assoc]
        rfl) h
  obtain ⟨rfl, rfl⟩ := Prod.mk.inj (Option.some.inj (hfront.symm.trans hps))
  obtain ⟨own, s₁, hown, h⟩ := bind_eq_some.1 hrs
  obtain ⟨rest, s₂, -, h⟩ := bind_eq_some.1 h
  obtain ⟨rfl, -⟩ := pure_eq_some.1 h
  obtain ⟨s₃, hown, -⟩ := inGroup_eq_some.1 hown
  exact ⟨own, s₃, hown, by simp⟩

theorem lowerComparison_of_isDescribed {c : Comparison} {value : Term} (h : IsDescribed x c value)
    (nested : Variable → Lower (List Pattern)) (subject : Variable) :
    lowerComparison x c value nested subject = match value.literal? with
      | some l => labelComparison x c l subject
      | none => nestedComparison x c nested subject := by
  obtain ⟨hvalid, hresource, hrange⟩ := h
  cases value with
  | invalid s => simp [Term.isValid] at hvalid
  | resource s u => simp [Term.resource?] at hresource
  | _ => simp [lowerComparison, Term.isValid, Term.literal?, hrange]

/-- Comparisons go on with the predicate and the variable that are chosen for them. -/
theorem eq_of_chosen {α : Type} {c : Comparison} {f : Node → Variable × Bool → Lower α} {p : Node}
    {r : Variable × Bool} {s between state : Lowering} {result : Option (α × Lowering)}
    (hp : predicate c.property s = some (p, between))
    (hv : mainVariable x.ontology c between = some (r, state))
    (h : (do let p ← predicate c.property; let r ← mainVariable x.ontology c; f p r) s = result) :
    f p r state = result := by
  rw [← h]
  change _ = (predicate c.property s).bind fun a =>
    (mainVariable x.ontology c a.2).bind fun b => f a.1 b.1 b.2
  rw [hp, Option.bind_some, hv, Option.bind_some]

/-- The patterns for a label stand behind the statement about the variable that has it. -/
theorem exists_of_labelComparison {c : Comparison} {l : Literal} {subject v : Variable} {p : Node}
    {isFirst : Bool} {s between state s' : Lowering} {qs : List Pattern}
    (hp : predicate c.property s = some (p, between))
    (hv : mainVariable x.ontology c between = some ((v, isFirst), state))
    (h : labelComparison x c l subject s = some (qs, s')) :
    ∃ rest, qs = headed isFirst (statement x c p (.var subject) (.var v)) ++ rest := by
  obtain ⟨label, s₁, -, h⟩ := bind_eq_some.1 (eq_of_chosen hp hv h)
  cases hcomparator : c.comparator with
  | equal =>
    simp only [hcomparator] at h
    obtain ⟨rfl, -⟩ := pure_eq_some.1 h
    exact ⟨_, rfl⟩
  | contains =>
    simp only [hcomparator] at h
    obtain ⟨text, s₂, -, h⟩ := bind_eq_some.1 h
    obtain ⟨contains, s₃, -, h⟩ := bind_eq_some.1 h
    obtain ⟨rfl, -⟩ := pure_eq_some.1 h
    exact ⟨_, rfl⟩
  | _ =>
    simp only [hcomparator] at h
    change none = _ at h
    contradiction

/-- The patterns for a value stand behind the statement about its variable. -/
theorem exists_of_nestedComparison {c : Comparison} {nested : Variable → Lower (List Pattern)}
    {subject v : Variable} {p : Node} {isFirst : Bool} {s between state s' : Lowering}
    {qs : List Pattern} (hp : predicate c.property s = some (p, between))
    (hv : mainVariable x.ontology c between = some ((v, isFirst), state))
    (h : nestedComparison x c nested subject s = some (qs, s')) :
    ∃ own s₁, nested v { state with scope := [] } = some (own, s₁) ∧
      qs = headed isFirst (resourceStatement x c p subject (.var v)) ++ own := by
  obtain ⟨own, s₁, hown, h⟩ := bind_eq_some.1 (eq_of_chosen hp hv h)
  obtain ⟨rfl, -⟩ := pure_eq_some.1 h
  obtain ⟨s₂, hown, -⟩ := inGroup_eq_some.1 hown
  exact ⟨own, s₂, hown, rfl⟩

/-- One step goes to a place whose patterns are written among those of the whole term. -/
theorem Step.isWritten (h : Step x q r) (hq : q.IsWritten x ps) : r.IsWritten x ps := by
  cases h with
  | member hterm front =>
    obtain ⟨qs, after, s', hinside, h⟩ := hq.exists_lowered (by rw [hterm]; rfl)
    rw [hterm, lower] at h
    obtain ⟨own, s₁, rest, hown, rfl⟩ := exists_of_lowerAll front h
    refine ⟨own ++ (rest ++ after), ?_, fun _ => ⟨own, _, s₁, rfl, hown⟩⟩
    simpa [List.append_assoc] using hinside
  | branch hterm front =>
    obtain ⟨qs, after, s', hinside, h⟩ := hq.exists_lowered (by rw [hterm]; rfl)
    rw [hterm, lower] at h
    obtain ⟨branches, s₁, hbranches, h⟩ := bind_eq_some.1 h
    obtain ⟨rfl, rfl⟩ := pure_eq_some.1 h
    obtain ⟨own, s₂, hown, hmem⟩ := exists_of_lowerBranches front hbranches
    exact isWritten_inBraces hinside (List.mem_filterMap.2 ⟨_, hmem, rfl⟩) hown
  | negation hterm =>
    obtain ⟨qs, after, s', hinside, h⟩ := hq.exists_lowered (by rw [hterm]; rfl)
    rw [hterm, lower] at h
    exact isWritten_inOwnBraces List.mem_singleton_self hinside h
  | optional hterm =>
    obtain ⟨qs, after, s', hinside, h⟩ := hq.exists_lowered (by rw [hterm]; rfl)
    rw [hterm, lower] at h
    exact isWritten_inOwnBraces List.mem_singleton_self hinside h
  | label hterm described hp hv =>
    obtain ⟨qs, after, s', hinside, h⟩ := hq.exists_lowered (by rw [hterm]; rfl)
    rw [hterm, lower, lowerComparison_of_isDescribed described] at h
    obtain ⟨rest, rfl⟩ := exists_of_labelComparison hp hv h
    refine ⟨rest ++ after, ?_, by simp [about, Term.literal?]⟩
    simpa [about, List.append_assoc] using hinside
  | nested hterm described unlabelled hp hv =>
    obtain ⟨qs, after, s', hinside, h⟩ := hq.exists_lowered (by rw [hterm]; rfl)
    rw [hterm, lower, lowerComparison_of_isDescribed described, unlabelled] at h
    obtain ⟨own, s₁, hown, rfl⟩ := exists_of_nestedComparison hp hv h
    refine ⟨own ++ after, ?_, fun _ => ⟨own, after, s₁, rfl, hown⟩⟩
    simpa [about, List.append_assoc] using hinside

end Place

/-- Variables are bound before they are used, in the patterns of any term that names its variables
directly. What filters and searches use is bound by a pattern in front of them, in the same braces or in
braces around them. At every place, the subject is bound so too; and when a comparison uses the variable
of a property again, the same braces already state that it is a value of the property of that subject. -/
theorem bound_before_used (x : Setting) {t : Term}
    (h : ∀ s c v, t.Part (.comparison s c v) → NamesDirectly c) {ps : List Pattern}
    {state : Lowering} (hlower : lower x t .result {} = some (ps, state)) :
    (∀ around front p rest, Inside ps around (front ++ p :: rest) →
      ∀ v ∈ p.uses, v = .result ∨ ∃ b ∈ around ++ front, v ∈ b.binds) ∧
    ∀ q, Relation.ReflTransGen (Place.Step x) (.start t) q →
      (∃ rest, Inside ps q.around (q.group ++ rest)) ∧
      (q.subject = .result ∨ ∃ b ∈ q.around ++ q.group, q.subject ∈ b.binds) ∧
      ∀ s c u v state, q.term = .comparison s c u →
        mainVariable x.ontology c q.state = some ((v, false), state) →
        ∃ property, c.property = some property ∧
          ∃ p ∈ q.group, p.States q.subject property v := by
  constructor
  · intro around front p rest hinside v hv
    have hguarded : GuardedAll [.result] ps :=
      (tracks_lower t h .result [.result] [] [] (.start (by simp)) _ _ _ rfl hlower).1
    simpa using hguarded.mem_known hinside v hv
  · intro q hq
    have hplace : q.Sound ∧ q.IsWritten x ps := by
      induction hq with
      | refl => exact ⟨Place.sound_start h, Place.isWritten_start hlower⟩
      | tail _ hstep ih => exact ⟨hstep.sound ih.1, hstep.isWritten ih.2⟩
    obtain ⟨hsound, rest, hinside, -⟩ := hplace
    refine ⟨⟨rest, hinside⟩, ?_, fun s c u v state hterm hv => ?_⟩
    · have hknows := hsound.ready.knows
      rwa [Place.known, List.mem_append, List.mem_singleton, List.mem_flatMap] at hknows
    · have hc : NamesDirectly c := hsound.named s c u (hterm ▸ .self)
      have hchosen := yields_mainVariable x.ontology _ hc _ _ _ rfl hv
      obtain ⟨property, hproperty, hmem⟩ := hchosen.mem_of_known
      exact ⟨property, hproperty, hsound.ready.inStep _ hmem⟩

/-- Two comparisons on the size of a result share its variable, which is stated once, in front of both. -/
theorem bound_before_used_size :
    let x : Setting := ⟨Ontology.desktop, false, false⟩
    let size (c : Comparator) (n : Int) :=
      Term.compare (some Nie.contentSize) (.ofLiteral (.integer n)) c
    let front : List Pattern :=
      [.triple (.var .result) (.uri Nie.contentSize) (.var (.generated 1)),
        .compares (.generated 1) .greater (.integer 1)]
    let last : Pattern := .compares (.generated 1) .smaller (.integer 5)
    (∃ state, lower x (.allOf [size .greater 1, size .smaller 5]) .result {} =
      some (front ++ [last], state)) ∧
    (∀ v ∈ last.uses, v = .result ∨ ∃ b ∈ front, v ∈ b.binds) ∧
    ∃ p ∈ front, p.States .result Nie.contentSize (.generated 1) := by
  intro x size front last
  have hnames : ∀ s c v, (Term.allOf [size .greater 1, size .smaller 5]).Part (.comparison s c v) →
      NamesDirectly c := by
    intro s c v hv
    have hparts : ∀ u, (Term.allOf [size .greater 1, size .smaller 5]).Part u →
        u ∈ [.allOf [size .greater 1, size .smaller 5], size .greater 1, size .smaller 5,
          .ofLiteral (.integer 1), .ofLiteral (.integer 5)] := by
      intro u hu
      induction hu with
      | self => exact List.mem_cons_self
      | child _ hw ih => fin_cases ih <;> fin_cases hw <;> simp
    have hmem := hparts _ hv
    simp only [List.mem_cons, List.not_mem_nil, or_false, Term.allOf, size, Term.compare,
      Term.ofLiteral, reduceCtorEq, Term.comparison.injEq, false_or] at hmem
    rcases hmem with ⟨-, rfl, -⟩ | ⟨-, rfl, -⟩ <;> simp [NamesDirectly]
  obtain ⟨state, hlower⟩ : ∃ state, lower x (.allOf [size .greater 1, size .smaller 5]) .result {} =
      some (front ++ [last], state) := ⟨_, rfl⟩
  obtain ⟨huses, hplaces⟩ := bound_before_used x hnames hlower
  have hterm : Term.allOf [size .greater 1, size .smaller 5] =
      .group {} .and ([size .greater 1] ++ size .smaller 5 :: []) := rfl
  obtain ⟨-, -, hagain⟩ := hplaces _ <| .single <| .member hterm
    (show lowerAll x [size .greater 1] .result {} = some (front, _) from rfl)
  obtain ⟨property, hproperty, hstated⟩ := hagain _ _ _ _ _ rfl rfl
  obtain rfl := Option.some.inj hproperty
  exact ⟨⟨state, hlower⟩, huses [] front last [] .self, hstated⟩

end DesktopSearch.Sparql
