import DesktopSearch.Proofs.Sparql.Everywhere
import DesktopSearch.Proofs.Sparql.Place

/-!
# Renamed variables

Two runs of a step of lowering may start with different counts and with different variables in the scope.
The second run `Mirrors` the first if it succeeds whenever the first does, with the result of the first
under a renaming of variables. Lowering a term mirrors lowering it about the renamed subject, as long as the
comparisons that look into the scope find there what the renaming makes of the variables
(`mirrors_lower`). Only comparisons that stand in the outermost group of the term look into the scope that
the term is lowered in (`Outermost`), since all other groups start with a scope of their own.
-/

namespace DesktopSearch.Sparql

/-! ## Renaming -/

/-- The node with its variable renamed. -/
def Node.rename (r : Variable → Variable) : Node → Node
  | var v => var (r v)
  | n => n

/-- The expression with its variable renamed. -/
def Expression.rename (r : Variable → Variable) : Expression → Expression
  | value v => value (r v)
  | aggregate a v => aggregate a (r v)

namespace Pattern

mutual

/-- The pattern with all its variables renamed. -/
def rename (r : Variable → Variable) : Pattern → Pattern
  | triple s p o => triple (s.rename r) (p.rename r) (o.rename r)
  | instanceOf s c => instanceOf (r s) (c.rename r)
  | isResource v u => isResource (r v) u
  | isOneOf v us => isOneOf (r v) us
  | compares v c l => compares (r v) c l
  | matchesRegexp v e => matchesRegexp (r v) e
  | searches v t score => searches (r v) t (score.map r)
  | block body => block (renameAll r body)
  | union branches => union (renameAll r branches)
  | eitherWay s p o inverse => eitherWay (s.rename r) (p.rename r) (o.rename r) inverse
  | holds body => holds (renameAll r body)
  | fails body => fails (renameAll r body)
  | optional body => optional (renameAll r body)

/-- The patterns of a list with all their variables renamed. -/
def renameAll (r : Variable → Variable) : List Pattern → List Pattern
  | [] => []
  | p :: ps => p.rename r :: renameAll r ps

end

variable {r r' : Variable → Variable}

theorem renameAll_append (ps qs : List Pattern) :
    renameAll r (ps ++ qs) = renameAll r ps ++ renameAll r qs := by
  induction ps with
  | nil => rfl
  | cons p ps ih => rw [List.cons_append, renameAll, ih, renameAll, List.cons_append]

/-- A node sees no more of a renaming than what it does to its variable. -/
theorem Node.rename_congr {n : Node} (h : ∀ v ∈ n.variables, r v = r' v) :
    n.rename r = n.rename r' := by
  cases n with
  | var v => exact congrArg Node.var (h v (List.mem_singleton_self v))
  | _ => rfl

mutual

/-- A pattern sees no more of a renaming than what it does to its variables. -/
theorem rename_congr : ∀ {p : Pattern}, p.Everywhere (fun p => ∀ v ∈ p.ownVariables, r v = r' v) →
    p.rename r = p.rename r'
  | triple s p o, h => by
    simp only [Everywhere, ownVariables, binds, uses, List.append_nil, List.forall_mem_append] at h
    rw [rename, rename, Node.rename_congr h.1.1, Node.rename_congr h.1.2, Node.rename_congr h.2]
  | eitherWay s p o _, h => by
    simp only [Everywhere, ownVariables, binds, uses, List.append_nil, List.forall_mem_append] at h
    rw [rename, rename, Node.rename_congr h.1.1, Node.rename_congr h.1.2, Node.rename_congr h.2]
  | instanceOf s c, h => by
    simp only [Everywhere, ownVariables, binds, uses, List.append_nil, List.forall_mem_cons] at h
    rw [rename, rename, h.1, Node.rename_congr h.2]
  | isResource v _, h | isOneOf v _, h | compares v _ _, h | matchesRegexp v _, h => by
    simp only [Everywhere, ownVariables, binds, uses, List.nil_append, List.forall_mem_singleton] at h
    rw [rename, rename, h]
  | searches v t score, h => by
    simp only [Everywhere, ownVariables, List.forall_mem_cons] at h
    rw [rename, rename, h.1]
    cases score with
    | none => rfl
    | some w => exact congrArg (fun u => searches (r' v) t (some u)) (h.2 w (List.mem_singleton_self w))
  | block _, h => congrArg block (renameAll_congr h.2)
  | union _, h => congrArg union (renameAll_congr h.2)
  | holds _, h => congrArg holds (renameAll_congr h.2)
  | fails _, h => congrArg fails (renameAll_congr h.2)
  | optional _, h => congrArg optional (renameAll_congr h.2)

theorem renameAll_congr : ∀ {ps : List Pattern},
    EverywhereAll (fun p => ∀ v ∈ p.ownVariables, r v = r' v) ps → renameAll r ps = renameAll r' ps
  | [], _ => rfl
  | _ :: _, h => congrArg₂ List.cons (rename_congr h.1) (renameAll_congr h.2)

end

theorem Node.rename_id (n : Node) : n.rename id = n := by
  cases n <;> rfl

mutual

theorem rename_id : ∀ p : Pattern, p.rename id = p
  | triple .. | eitherWay .. | instanceOf .. => by simp only [rename, Node.rename_id, id]
  | isResource .. | isOneOf .. | compares .. | matchesRegexp .. => rfl
  | searches _ _ score => by rw [rename, Option.map_id]; rfl
  | block body => congrArg block (renameAll_id body)
  | union branches => congrArg union (renameAll_id branches)
  | holds body => congrArg holds (renameAll_id body)
  | fails body => congrArg fails (renameAll_id body)
  | optional body => congrArg optional (renameAll_id body)

theorem renameAll_id : ∀ ps : List Pattern, renameAll id ps = ps
  | [] => rfl
  | p :: ps => congrArg₂ List.cons (rename_id p) (renameAll_id ps)

end

end Pattern

open Sparql.Pattern

/-! ## Two runs -/

/-- The variable that a property is bound to in a scope. -/
def boundTo (scope : Scope) (p : Uri) : Option Variable := (scope.find? (·.1 == p)).map Prod.snd

/-- What a property was bound to last comes first. -/
theorem boundTo_cons (scope : Scope) (p g : Uri) (v : Variable) :
    boundTo ((p, v) :: scope) g = if p = g then some v else boundTo scope g := by
  rw [boundTo, List.find?_cons]
  by_cases h : p = g
  · simp [h]
  · simp [beq_false_of_ne h, h, boundTo]

/-- How what a property is bound to in the first run and what it is bound to in the second belong together. -/
abbrev Matching := Uri → Option Variable → Option Variable → Prop

/-- Properties are bound to renamed variables. -/
def renamed (r : Variable → Variable) : Matching := fun _ a b => b = a.map r

/-- The second run is where the first one is : the variables that the first makes up from now on are renamed
to those that the second makes up, and the scopes match. -/
structure Beside (r : Variable → Variable) (m : Matching) (s s' : Lowering) : Prop where
  fresh : ∀ k, r (.generated (s.used + 1 + k)) = .generated (s'.used + 1 + k)
  scope : ∀ p, m p (boundTo s.scope p) (boundTo s'.scope p)

/-- Started beside the first step, the second one succeeds if the first does, and ends beside it, with a
result that belongs to that of the first. -/
def Mirrors {α β : Type} (r : Variable → Variable) (m : Matching) (P : α → β → Prop) (step : Lower α)
    (step' : Lower β) : Prop :=
  ∀ s s' a s₁, Beside r m s s' → step s = some (a, s₁) →
    ∃ b s₁', step' s' = some (b, s₁') ∧ P a b ∧ Beside r m s₁ s₁'

section

variable {α β γ δ : Type} {r : Variable → Variable} {m : Matching} {P : α → β → Prop}
  {Q : γ → δ → Prop}

theorem mirrors_pure {a : α} {b : β} (h : P a b) : Mirrors r m P (pure a) (pure b) := by
  intro s s' a' s₁ hbeside hs
  obtain ⟨rfl, rfl⟩ := pure_eq_some.1 hs
  exact ⟨b, s', rfl, h, hbeside⟩

/-- A step that fails is mirrored by any other. -/
theorem mirrors_failure {step : Lower β} : Mirrors r m P failure step := by
  intro s s' a s₁ _ hs
  change none = _ at hs
  contradiction

/-- Steps are mirrored one after the other, as long as their results belong together. -/
theorem Mirrors.bind {step : Lower α} {step' : Lower β} {f : α → Lower γ} {f' : β → Lower δ}
    (h : Mirrors r m P step step') (hf : ∀ a b, P a b → Mirrors r m Q (f a) (f' b)) :
    Mirrors r m Q (step >>= f) (step' >>= f') := by
  intro s s' c s₂ hbeside hs
  obtain ⟨a, s₁, ha, hc⟩ := bind_eq_some.1 hs
  obtain ⟨b, s₁', hb, hab, hbeside⟩ := h s s' a s₁ hbeside ha
  obtain ⟨d, s₂', hd, hcd, hbeside⟩ := hf a b hab s₁ s₁' c s₂ hbeside hc
  exact ⟨d, s₂', bind_eq_some.2 ⟨b, s₁', hb, hd⟩, hcd, hbeside⟩

/-- Groups of their own start in scopes that match in any way. -/
theorem Mirrors.inGroup {step : Lower α} {step' : Lower β} (h : Mirrors r (renamed r) P step step') :
    Mirrors r m P (inGroup step) (inGroup step') := by
  intro s s' a s₁ hbeside hs
  obtain ⟨s₂, ha, rfl⟩ := inGroup_eq_some.1 hs
  have hstart : Beside r (renamed r) { s with scope := [] } { s' with scope := [] } :=
    ⟨hbeside.fresh, fun _ => rfl⟩
  obtain ⟨b, s₂', hb, hab, hend⟩ := h _ _ a s₂ hstart ha
  exact ⟨b, _, inGroup_eq_some.2 ⟨s₂', hb, rfl⟩, hab, hend.fresh, hbeside.scope⟩

end

section

variable {r : Variable → Variable} {m : Matching}

/-- The variables that are made up next are renamed to each other. -/
theorem mirrors_freshVariable : Mirrors r m (fun v w => w = r v) freshVariable freshVariable := by
  intro s s' v s₁ hbeside hs
  obtain ⟨rfl, rfl⟩ := Prod.mk.inj (Option.some.inj hs)
  refine ⟨_, _, rfl, (hbeside.fresh 0).symm, fun k => ?_, hbeside.scope⟩
  have h := hbeside.fresh (k + 1)
  rwa [Nat.add_comm k, ← Nat.add_assoc, ← Nat.add_assoc] at h

theorem mirrors_bindProperty {p : Uri} {v w : Variable} (h : m p (some v) (some w)) :
    Mirrors r m (fun _ _ => True) (bindProperty p v) (bindProperty p w) := by
  rintro s s' ⟨⟩ s₁ hbeside hs
  obtain ⟨-, rfl⟩ := Prod.mk.inj (Option.some.inj hs)
  refine ⟨(), _, rfl, trivial, hbeside.fresh, fun g => ?_⟩
  rw [boundTo_cons, boundTo_cons]
  split
  · rename_i hg
    exact hg ▸ h
  · exact hbeside.scope g

/-- A property is bound to the renamed variable, if that is how the scopes match. -/
theorem mirrors_boundVariable? {p : Uri} (h : ∀ a b, m p a b → b = a.map r) :
    Mirrors r m (fun a b => b = a.map r) (boundVariable? p) (boundVariable? p) := by
  intro s s' a s₁ hbeside hs
  obtain ⟨rfl, rfl⟩ := Prod.mk.inj (Option.some.inj hs)
  exact ⟨_, s', rfl, h _ _ (hbeside.scope p), hbeside⟩

theorem mirrors_addColumn (c d : Column) :
    Mirrors r m (fun _ _ => True) (addColumn c) (addColumn d) := by
  rintro s s' ⟨⟩ s₁ hbeside hs
  obtain ⟨-, rfl⟩ := Prod.mk.inj (Option.some.inj hs)
  refine ⟨(), _, rfl, trivial, ?_⟩
  split <;> split <;> exact ⟨hbeside.fresh, hbeside.scope⟩

theorem mirrors_addSortKey (k l : SortKey) :
    Mirrors r m (fun _ _ => True) (addSortKey k) (addSortKey l) := by
  rintro s s' ⟨⟩ s₁ hbeside hs
  obtain ⟨-, rfl⟩ := Prod.mk.inj (Option.some.inj hs)
  exact ⟨(), _, rfl, trivial, hbeside.fresh, hbeside.scope⟩

theorem mirrors_addSearch (f g : Search) :
    Mirrors r m (fun _ _ => True) (addSearch f) (addSearch g) := by
  rintro s s' ⟨⟩ s₁ hbeside hs
  obtain ⟨-, rfl⟩ := Prod.mk.inj (Option.some.inj hs)
  exact ⟨(), _, rfl, trivial, hbeside.fresh, hbeside.scope⟩

/-! ## The variable of a comparison -/

theorem mirrors_predicate (property : Option Uri) :
    Mirrors r m (fun a b => b = a.rename r) (predicate property) (predicate property) := by
  cases property with
  | none =>
    refine mirrors_freshVariable.bind fun v w hvw => mirrors_pure ?_
    rw [hvw]
    rfl
  | some p => exact mirrors_pure rfl

/-- The scopes match in what the comparison looks for and in what it binds. -/
structure Suits (r : Variable → Variable) (m : Matching) (c : Comparison) : Prop where
  named : ∀ p name, c.property = some p → c.variableName = some name →
    m p (some (.named name)) (some (.named name))
  plain : ∀ p, c.property = some p → c.variableName = none → c.inverted = false →
    (∀ a b, m p a b → b = a.map r) ∧ ∀ v, m p (some v) (some (r v))

theorem mirrors_propertyVariable (o : Ontology) {p : Uri} (h : ∀ a b, m p a b → b = a.map r)
    (hbind : ∀ v, m p (some v) (some (r v))) :
    Mirrors r m (fun a b => b = (r a.1, a.2)) (propertyVariable o p) (propertyVariable o p) := by
  refine (mirrors_boundVariable? h).bind fun a b hab => ?_
  subst hab
  cases a with
  | some v => exact mirrors_pure rfl
  | none =>
    refine mirrors_freshVariable.bind fun v w hvw => ?_
    subst hvw
    dsimp only
    split
    · exact (mirrors_bindProperty (hbind v)).bind fun _ _ _ => mirrors_pure rfl
    · exact mirrors_pure rfl

theorem mirrors_plainVariable (o : Ontology) {c : Comparison} (hc : Suits r m c)
    (hname : c.variableName = none) :
    Mirrors r m (fun a b => b = (r a.1, a.2)) (plainVariable o c) (plainVariable o c) := by
  rw [plainVariable]
  split
  · rename_i p hp hdirect
    obtain ⟨hlook, hbind⟩ := hc.plain p hp hname hdirect
    exact mirrors_propertyVariable o hlook hbind
  · refine mirrors_freshVariable.bind fun v w hvw => mirrors_pure ?_
    rw [hvw]

variable (hr : ∀ name, r (.named name) = .named name)

include hr

theorem suits_renamed (c : Comparison) : Suits r (renamed r) c where
  named p name _ _ := by rw [renamed, Option.map_some, hr]
  plain p _ _ _ := ⟨fun _ _ h => h, fun _ => rfl⟩

theorem mirrors_valueVariable (o : Ontology) {c : Comparison} (hc : Suits r m c) :
    Mirrors r m (fun a b => b = (r a.1, a.2.1, a.2.2.rename r)) (valueVariable o c)
      (valueVariable o c) := by
  rw [valueVariable]
  split
  · rename_i name hname
    have hvalue : Mirrors r m (fun a b => b = (r a.1, a.2.1, a.2.2.rename r))
        (do addColumn (.value (.named name))
            return (Variable.named name, true, Expression.value (.named name)))
        (do addColumn (.value (.named name))
            return (Variable.named name, true, Expression.value (.named name))) := by
      refine (mirrors_addColumn _ _).bind fun _ _ _ => mirrors_pure ?_
      simp only [Expression.rename, hr]
    have haggregate (a : Aggregate) : Mirrors r m (fun a b => b = (r a.1, a.2.1, a.2.2.rename r))
        (do let v ← freshVariable
            addColumn (.aggregate a v (.named name))
            return (v, true, Expression.value (.named name)))
        (do let v ← freshVariable
            addColumn (.aggregate a v (.named name))
            return (v, true, Expression.value (.named name))) := by
      refine mirrors_freshVariable.bind fun v w hvw => ?_
      refine (mirrors_addColumn _ _).bind fun _ _ _ => mirrors_pure ?_
      simp only [Expression.rename, hr, hvw]
    cases hp : c.property with
    | none =>
      cases c.aggregate with
      | none => exact hvalue
      | some a => exact haggregate a
    | some p =>
      refine (mirrors_bindProperty (hc.named p name hp hname)).bind fun _ _ _ => ?_
      cases c.aggregate with
      | none => exact hvalue
      | some a => exact haggregate a
  · rename_i hname
    refine (mirrors_plainVariable o hc hname).bind fun a b hab => mirrors_pure ?_
    subst hab
    cases c.aggregate <;> rfl

/-- The variable of a comparison is the renamed one, and it is new in both runs or in none. -/
theorem mirrors_mainVariable (o : Ontology) {c : Comparison} (hc : Suits r m c) :
    Mirrors r m (fun a b => b = (r a.1, a.2)) (mainVariable o c) (mainVariable o c) := by
  refine (mirrors_valueVariable hr o hc).bind fun a b hab => ?_
  subst hab
  obtain ⟨v, isFirst, key⟩ := a
  dsimp only
  split
  · have hkey (k l : SortKey) : Mirrors r m (fun a b => b = (r a.1, a.2))
        (do addSortKey k; return (v, isFirst)) (do addSortKey l; return (r v, isFirst)) :=
      (mirrors_addSortKey _ _).bind fun _ _ _ => mirrors_pure rfl
    cases c.aggregate with
    | none =>
      cases key with
      | value w => exact (mirrors_addColumn _ _).bind fun _ _ _ => hkey _ _
      | aggregate a w => exact hkey _ _
    | some a => cases key <;> exact hkey _ _
  · exact mirrors_pure rfl

omit hr in
theorem mirrors_containsPattern (scoring : Bool) (v : Variable) (text : String) (counts : Bool) :
    Mirrors r m (fun a b => b = a.rename r) (containsPattern scoring v text counts)
      (containsPattern scoring (r v) text counts) := by
  rw [containsPattern, containsPattern]
  dsimp only
  split
  · exact mirrors_pure rfl
  split
  · exact mirrors_pure rfl
  split
  · exact (mirrors_addSearch _ _).bind fun _ _ _ => mirrors_pure rfl
  · refine mirrors_freshVariable.bind fun score score' hscore => ?_
    subst hscore
    exact (mirrors_addSearch _ _).bind fun _ _ _ => mirrors_pure rfl

end

/-! ## Comparisons -/

section

variable (x : Setting) (c : Comparison) (value : Term) (nested : Variable → Lower (List Pattern))

/-- Whether the patterns of a comparison are about a variable, and not one statement about a given value. -/
def usesVariable : Bool :=
  if !value.isValid then true
  else if comparesLiterals x.ontology c value || c.comparator == .regexp then
    value.literal?.isSome &&
      !decide (c.comparator = .equal ∧ c.variableName = none ∧ c.sortWeight = 0)
  else value.resource?.isNone

/-- The statement about the variable of a comparison. -/
def stating (p : Node) (subject v : Variable) : Pattern :=
  if !value.isValid || (comparesLiterals x.ontology c value || c.comparator == .regexp) then
    .triple (.var subject) p (.var v)
  else if value.literal?.isSome then statement x c p (.var subject) (.var v)
  else resourceStatement x c p subject (.var v)

/-- What a comparison says of its variable. -/
def sayingOf (v : Variable) : Lower (List Pattern) :=
  if !value.isValid then return []
  else if comparesLiterals x.ontology c value || c.comparator == .regexp then
    match value.literal? with
    | some l => do
      let filter ← match c.comparator with
        | .contains => containsPattern x.scoring v l.text true
        | .regexp => pure (.matchesRegexp v l.text)
        | comparator => pure (.compares v comparator l)
      return [filter]
    | none => failure
  else
    match value.literal? with
    | some l => do
      let label ← freshVariable
      match c.comparator with
      | .equal => return [.triple (.var v) (.var label) (.literal l)]
      | .contains =>
        let text ← freshVariable
        let contains ← containsPattern x.scoring text l.text false
        return [.triple (.var v) (.var label) (.var text), contains]
      | _ => failure
    | none => inGroup (nested v)

variable {x c value nested}

/-- A comparison that has a variable is lowered to the statement about it, if the variable is new, and what
it says of it. -/
theorem lowerComparison_of_usesVariable (h : usesVariable x c value = true)
    (hdirect : value.isValid = false → c.inverted = false) (subject : Variable) :
    lowerComparison x c value nested subject = (do
      let p ← predicate c.property
      let r ← mainVariable x.ontology c
      let ps ← sayingOf x c value nested r.1
      return headed r.2 (stating x c value p subject r.1) ++ ps) := by
  cases hvalid : value.isValid with
  | false =>
    simp only [lowerComparison, existence, sayingOf, stating, hvalid, hdirect hvalid, headed,
      Bool.not_false, if_true, Bool.true_or, pure_bind, List.append_nil, Bool.false_eq_true, if_false]
    refine congrArg (predicate c.property >>= ·) (funext fun p => ?_)
    refine congrArg (mainVariable x.ontology c >>= ·) (funext fun r => ?_)
    obtain ⟨v, isFirst⟩ := r
    cases isFirst <;> rfl
  | true =>
    cases hliterals : comparesLiterals x.ontology c value || c.comparator == .regexp with
    | true =>
      rw [usesVariable, hvalid, hliterals] at h
      simp only [Bool.not_true, Bool.false_eq_true, if_false, if_true, Bool.and_eq_true,
        Bool.not_eq_true', decide_eq_false_iff_not] at h
      obtain ⟨hliteral, hfilter⟩ := h
      obtain ⟨l, hl⟩ := Option.isSome_iff_exists.1 hliteral
      simp only [lowerComparison, literalComparison, sayingOf, stating, hvalid, hliterals, hl, headed,
        hfilter, Bool.not_true, Bool.false_eq_true, if_false, if_true, Bool.false_or]
      refine congrArg (predicate c.property >>= ·) (funext fun p => ?_)
      refine congrArg (mainVariable x.ontology c >>= ·) (funext fun r => ?_)
      obtain ⟨v, isFirst⟩ := r
      cases hcomparator : c.comparator with
      | contains =>
        simp only [bind_assoc, pure_bind]
        refine congrArg (containsPattern x.scoring v l.text true >>= ·) (funext fun filter => ?_)
        cases isFirst <;> rfl
      | _ => cases isFirst <;> rfl
    | false =>
      rw [usesVariable, hvalid, hliterals] at h
      simp only [Bool.not_true, Bool.false_eq_true, if_false, Option.isNone_iff_eq_none] at h
      rw [Place.lowerComparison_of_isDescribed ⟨hvalid, h, hliterals⟩]
      cases hl : value.literal? with
      | some l =>
        simp only [labelComparison, sayingOf, stating, hvalid, hliterals, hl, headed, Bool.not_true,
          Bool.false_eq_true, if_false, Bool.false_or, Option.isSome_some, if_true]
        refine congrArg (predicate c.property >>= ·) (funext fun p => ?_)
        refine congrArg (mainVariable x.ontology c >>= ·) (funext fun r => ?_)
        obtain ⟨v, isFirst⟩ := r
        rw [bind_assoc]
        refine congrArg (freshVariable >>= ·) (funext fun label => ?_)
        cases hcomparator : c.comparator with
        | contains => simp only [bind_assoc, pure_bind]
        | _ => rfl
      | none =>
        simp only [nestedComparison, sayingOf, stating, hvalid, hliterals, hl, headed, Bool.not_true,
          Bool.false_eq_true, if_false, Bool.false_or, Option.isSome_none]

variable {r : Variable → Variable} {m : Matching} {subject v : Variable}

theorem rename_statement (p s o : Node) :
    (statement x c p s o).rename r = statement x c (p.rename r) (s.rename r) (o.rename r) := by
  rw [statement, statement]
  split <;> rfl

theorem rename_resourceStatement (p o : Node) : (resourceStatement x c p subject o).rename r =
    resourceStatement x c (p.rename r) (r subject) (o.rename r) := by
  rw [resourceStatement, resourceStatement]
  split <;> exact rename_statement _ _ _

theorem rename_stating (p : Node) : (stating x c value p subject v).rename r =
    stating x c value (p.rename r) (r subject) (r v) := by
  rw [stating, stating]
  split
  · rfl
  split
  · exact rename_statement _ _ _
  · exact rename_resourceStatement _ _

/-- A statement that is written only for new variables is renamed with them. -/
theorem renameAll_headed (isFirst : Bool) (p : Pattern) :
    renameAll r (headed isFirst p) = headed isFirst (p.rename r) := by
  cases isFirst <;> rfl

/-- What a comparison says of its variable does not depend on the scope. -/
theorem mirrors_sayingOf
    (h : ∀ v, Mirrors r (renamed r) (fun ps qs => qs = renameAll r ps) (nested v) (nested (r v)))
    (v : Variable) :
    Mirrors r m (fun ps qs => qs = renameAll r ps) (sayingOf x c value nested v)
      (sayingOf x c value nested (r v)) := by
  rw [sayingOf, sayingOf]
  split
  · exact mirrors_pure rfl
  split
  · split
    · dsimp only
      split
      · refine (mirrors_containsPattern _ _ _ _).bind fun a b hab => mirrors_pure ?_
        rw [hab]
        rfl
      · exact mirrors_pure rfl
      · exact mirrors_pure rfl
    · exact mirrors_failure
  split
  · refine mirrors_freshVariable.bind fun label label' hlabel => ?_
    subst hlabel
    split
    · exact mirrors_pure rfl
    · refine mirrors_freshVariable.bind fun text text' htext => ?_
      subst htext
      refine (mirrors_containsPattern _ _ _ _).bind fun a b hab => mirrors_pure ?_
      rw [hab]
      rfl
    · exact mirrors_failure
  · exact (h v).inGroup

/-- A comparison without a variable is one statement. -/
theorem mirrors_of_not_usesVariable (h : usesVariable x c value = false) (subject : Variable) :
    Mirrors r m (fun ps qs => qs = renameAll r ps) (lowerComparison x c value nested subject)
      (lowerComparison x c value nested (r subject)) := by
  rw [usesVariable] at h
  split at h
  · contradiction
  rename_i hvalid
  split at h
  · rename_i hliterals
    unfold lowerComparison
    rw [if_neg hvalid, if_pos hliterals, if_neg hvalid, if_pos hliterals]
    split
    · rename_i l hl
      rw [hl, Option.isSome_some, Bool.true_and, Bool.not_eq_false', decide_eq_true_eq] at h
      refine (mirrors_predicate _).bind fun p p' hp => ?_
      rw [if_pos h, if_pos h, hp]
      exact mirrors_pure rfl
    · exact mirrors_failure
  · rename_i hliterals
    obtain ⟨u, hu⟩ := Option.isSome_iff_exists.1 (Option.isNone_eq_false_iff.1 h)
    cases value with
    | resource s u' =>
      rw [lowerComparison, lowerComparison, if_neg hvalid, if_neg hliterals, if_neg hvalid,
        if_neg hliterals]
      refine (mirrors_predicate _).bind fun p p' hp => mirrors_pure ?_
      rw [hp, renameAll, rename_resourceStatement]
      rfl
    | _ => simp [Term.resource?] at hu

/-- A comparison is lowered alike if the scopes suit it, where its variable is used at all. -/
theorem mirrors_lowerComparison (hr : ∀ name, r (.named name) = .named name)
    (hc : usesVariable x c value = true → Suits r m c)
    (h : ∀ v, Mirrors r (renamed r) (fun ps qs => qs = renameAll r ps) (nested v) (nested (r v)))
    (subject : Variable) :
    Mirrors r m (fun ps qs => qs = renameAll r ps) (lowerComparison x c value nested subject)
      (lowerComparison x c value nested (r subject)) := by
  by_cases huses : usesVariable x c value = true
  · by_cases hdirect : value.isValid = false → c.inverted = false
    · rw [lowerComparison_of_usesVariable huses hdirect, lowerComparison_of_usesVariable huses hdirect]
      refine (mirrors_predicate _).bind fun p p' hp => ?_
      refine (mirrors_mainVariable hr _ (hc huses)).bind fun a b hab => ?_
      refine Mirrors.bind (P := fun ps qs => qs = renameAll r ps) ?_ fun ps qs hps => mirrors_pure ?_
      · rw [hab]
        exact mirrors_sayingOf h a.1
      · rw [hp, hab, hps, renameAll_append, renameAll_headed, rename_stating]
    · obtain ⟨hvalid, hinverted⟩ := Classical.not_imp.1 hdirect
      have hexistence (subject : Variable) :
          lowerComparison x c value nested subject = existence x c subject := by
        unfold lowerComparison
        rw [hvalid]
        rfl
      rw [hexistence, hexistence]
      refine (mirrors_predicate _).bind fun p p' hp => ?_
      refine (mirrors_mainVariable hr _ (hc huses)).bind fun a b hab => ?_
      subst hp hab
      dsimp only
      rw [if_pos (by simpa using hinverted), if_pos (by simpa using hinverted)]
      exact mirrors_pure rfl
  · exact mirrors_of_not_usesVariable (by simpa using huses) subject

end

/-! ## Terms -/

/-- The comparison with its value stands in the outermost group of the term. -/
inductive Outermost (c : Comparison) (value : Term) : Term → Prop
  | self (s : Span) : Outermost c value (.comparison s c value)
  | member {s : Span} {ts : List Term} {t : Term} (mem : t ∈ ts) (h : Outermost c value t) :
    Outermost c value (.group s .and ts)

section

variable {x : Setting} {r : Variable → Variable} {m : Matching}

/-- Lowering patterns from the scope, about the subject and about the renamed subject. -/
abbrev MirrorsPatterns (r : Variable → Variable) (m : Matching) (step step' : Lower (List Pattern)) :
    Prop :=
  Mirrors r m (fun ps qs => qs = renameAll r ps) step step'

theorem mirrors_lowerLiteral (l : Literal) (subject : Variable) :
    MirrorsPatterns r m (lowerLiteral x l subject) (lowerLiteral x l (r subject)) := by
  refine mirrors_freshVariable.bind fun p p' hp => ?_
  refine mirrors_freshVariable.bind fun v v' hv => ?_
  subst hp hv
  refine (mirrors_containsPattern _ _ _ _).bind fun a b hab => mirrors_pure ?_
  rw [hab]
  rfl

theorem mirrors_lowerTypes (us : List Uri) (subject : Variable) :
    MirrorsPatterns r m (lowerTypes us subject) (lowerTypes us (r subject)) := by
  unfold lowerTypes
  split
  · exact mirrors_failure
  · exact mirrors_pure rfl
  · refine mirrors_freshVariable.bind fun v v' hv => mirrors_pure ?_
    rw [hv]
    rfl

/-- The members of a conjunction are lowered one after the other, in both runs. -/
theorem mirrors_lowerAll {ts : List Term} {subject : Variable}
    (h : ∀ t ∈ ts, MirrorsPatterns r m (lower x t subject) (lower x t (r subject))) :
    MirrorsPatterns r m (lowerAll x ts subject) (lowerAll x ts (r subject)) := by
  induction ts with
  | nil => exact mirrors_pure rfl
  | cons t ts ih =>
    rw [List.forall_mem_cons] at h
    refine h.1.bind fun ps ps' hps => (ih h.2).bind fun qs qs' hqs => mirrors_pure ?_
    rw [hps, hqs, renameAll_append]

/-- Alternatives start with scopes of their own, so they need no match. -/
theorem mirrors_lowerBranches {ts : List Term} {subject : Variable}
    (h : ∀ t ∈ ts, MirrorsPatterns r (renamed r) (lower x t subject) (lower x t (r subject))) :
    MirrorsPatterns r m (lowerBranches x ts subject) (lowerBranches x ts (r subject)) := by
  induction ts with
  | nil => exact mirrors_pure rfl
  | cons t ts ih =>
    rw [List.forall_mem_cons] at h
    refine h.1.inGroup.bind fun ps ps' hps => (ih h.2).bind fun qs qs' hqs => mirrors_pure ?_
    rw [hps, hqs]
    rfl

/-- Lowering a term about the renamed subject gives the renamed patterns. -/
theorem mirrors_lower (hr : ∀ name, r (.named name) = .named name) (t : Term)
    (hsuits : ∀ c value, Outermost c value t → usesVariable x c value = true → Suits r m c)
    (subject : Variable) : MirrorsPatterns r m (lower x t subject) (lower x t (r subject)) := by
  induction t generalizing m subject with
  | invalid s => exact mirrors_failure
  | literal s l => exact mirrors_lowerLiteral l subject
  | resource s u => exact mirrors_pure rfl
  | types s us => exact mirrors_lowerTypes us subject
  | comparison s c value ih =>
    refine mirrors_lowerComparison hr (hsuits c value (.self s)) (fun v => ?_) subject
    exact ih (fun c _ _ _ => suits_renamed hr c) v
  | negation s t ih =>
    refine (ih (fun c _ _ _ => suits_renamed hr c) subject).inGroup.bind fun ps qs h => mirrors_pure ?_
    rw [h]
    rfl
  | optional s t ih =>
    refine (ih (fun c _ _ _ => suits_renamed hr c) subject).inGroup.bind fun ps qs h => mirrors_pure ?_
    rw [h]
    rfl
  | group s k ts ih =>
    cases k with
    | and =>
      exact mirrors_lowerAll fun t ht =>
        ih t ht (fun c value hc => hsuits c value (.member ht hc)) subject
    | or =>
      have hbranches := mirrors_lowerBranches (m := m) fun t (ht : t ∈ ts) =>
        ih t ht (fun c _ _ _ => suits_renamed hr c) subject
      refine hbranches.bind fun ps qs h => mirrors_pure ?_
      rw [h]
      rfl

end

end DesktopSearch.Sparql
