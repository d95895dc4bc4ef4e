import DesktopSearch.Proofs.Sparql.Compilation
import DesktopSearch.Proofs.Sparql.Scope

/-!
# Terms that can be expressed

A term is `Expressible` if it says something down to its innermost parts, as far as they are lowered, and if
every comparison in it is with a value that its property and its comparator can have. Lowering succeeds for
these terms and for no others, whatever has been decided before (`exists_lower_iff`). So a query compiles to
the empty text exactly if the term that is prepared for it is not expressible (`lowering_expressible`).

A comparison whose value needs no other variable than the group has already writes nothing. That never
empties a query : the first member of a group finds no variables (`Full.yields_lower`), and no group of a
prepared term is without members (`full_prepared`).
-/

namespace DesktopSearch.Sparql

/-! ## What can be expressed -/

/-- The comparison is one of literals : the values of its property are literals, or it has no property and a
literal as its value, or it looks for a regular expression. -/
def NeedsLiteral (o : Ontology) (c : Comparison) (value : Term) : Prop :=
  (∃ p, c.property = some p ∧ (o.literalRange? p).isSome = true) ∨
    (c.property = none ∧ value.literal?.isSome = true) ∨ c.comparator = .regexp

/-- Some patterns express the term. -/
inductive Expressible (o : Ontology) : Term → Prop
  | literal (s : Span) (l : Literal) : Expressible o (.literal s l)
  | resource (s : Span) (u : Uri) : Expressible o (.resource s u)
  | types (s : Span) (us : List Uri) (some : us ≠ []) : Expressible o (.types s us)
  | group (s : Span) (k : Connective) (ts : List Term) (members : ∀ t ∈ ts, Expressible o t) :
    Expressible o (.group s k ts)
  | negation (s : Span) (t : Term) (inner : Expressible o t) : Expressible o (.negation s t)
  | optional (s : Span) (t : Term) (inner : Expressible o t) : Expressible o (.optional s t)
  /-- The property has any value. -/
  | existence (s : Span) (c : Comparison) (v : Term) (invalid : v.isValid = false) :
    Expressible o (.comparison s c v)
  | compared (s : Span) (c : Comparison) (r : Span) (l : Literal)
    (needed : NeedsLiteral o c (.literal r l)) : Expressible o (.comparison s c (.literal r l))
  /-- A literal names a resource with its label. -/
  | labelled (s : Span) (c : Comparison) (r : Span) (l : Literal)
    (free : ¬NeedsLiteral o c (.literal r l))
    (comparator : c.comparator = .equal ∨ c.comparator = .contains) :
    Expressible o (.comparison s c (.literal r l))
  | linked (s : Span) (c : Comparison) (r : Span) (u : Uri) (free : ¬NeedsLiteral o c (.resource r u)) :
    Expressible o (.comparison s c (.resource r u))
  /-- The value is described by a term of its own. -/
  | described (s : Span) (c : Comparison) (v : Term) (free : ¬NeedsLiteral o c v)
    (noLiteral : v.literal? = none) (value : Expressible o v) : Expressible o (.comparison s c v)

variable {o : Ontology} {x : Setting} {c : Comparison} {value t : Term} {ts : List Term}
  {subject : Variable} {s : Lowering}

/-- A comparison needs a literal if its property takes them, or if it tests a regular expression. -/
theorem needsLiteral_iff :
    NeedsLiteral o c value ↔ (comparesLiterals o c value || c.comparator == .regexp) = true := by
  rw [NeedsLiteral, comparesLiterals, Bool.or_eq_true, beq_iff_eq, ← or_assoc]
  cases c.property with
  | none => simp
  | some p => simp

/-! ## The branches of a comparison -/

section Branches

variable {nested : Variable → Lower (List Pattern)}

/-- Without a valid value a comparison asks whether there is one. -/
theorem lowerComparison_existence (h : value.isValid = false) :
    lowerComparison x c value nested subject = existence x c subject := by
  unfold lowerComparison
  rw [if_pos (by simp [h])]

/-- Where a literal is needed, nothing else is lowered. -/
theorem lowerComparison_needed (hvalid : value.isValid = true) (h : NeedsLiteral x.ontology c value) :
    lowerComparison x c value nested subject =
      value.literal?.elim failure (literalComparison x c · subject) := by
  unfold lowerComparison
  rw [if_neg (by simp [hvalid]), if_pos (needsLiteral_iff.1 h)]
  cases value.literal? with
  | none => rfl
  | some l => rfl

theorem lowerComparison_labelled {r : Span} {l : Literal}
    (h : ¬NeedsLiteral x.ontology c (.literal r l)) :
    lowerComparison x c (.literal r l) nested subject = labelComparison x c l subject := by
  rw [lowerComparison, if_neg (by simp [Term.isValid]), if_neg (fun hn => h (needsLiteral_iff.2 hn))]

theorem lowerComparison_linked {r : Span} {u : Uri} (h : ¬NeedsLiteral x.ontology c (.resource r u)) :
    lowerComparison x c (.resource r u) nested subject = do
      let p ← predicate c.property
      return [resourceStatement x c p subject (.uri u)] := by
  rw [lowerComparison, if_neg (by simp [Term.isValid]), if_neg (fun hn => h (needsLiteral_iff.2 hn))]

theorem lowerComparison_described (hvalid : value.isValid = true)
    (h : ¬NeedsLiteral x.ontology c value) (hliteral : value.literal? = none)
    (hresource : value.resource? = none) :
    lowerComparison x c value nested subject = nestedComparison x c nested subject := by
  rw [lowerComparison, if_neg (by simp [hvalid]), if_neg (fun hn => h (needsLiteral_iff.2 hn))]
  · rintro r l rfl
    simp [Term.literal?] at hliteral
  · rintro r u rfl
    simp [Term.resource?] at hresource

end Branches

/-! ## Expressible terms are lowered -/

theorem succeeds_nestedComparison {nested : Variable → Lower (List Pattern)}
    (h : ∀ v, Succeeds (nested v)) : Succeeds (nestedComparison x c nested subject) :=
  (succeeds_predicate _).bind fun _ => (succeeds_mainVariable _ c).bind fun r =>
    (h r.1).inGroup.bind fun _ _ => succeeds_pure _

theorem succeeds_linked {r : Span} {u : Uri} {nested : Variable → Lower (List Pattern)}
    (h : ¬NeedsLiteral x.ontology c (.resource r u)) :
    Succeeds (lowerComparison x c (.resource r u) nested subject) := by
  rw [lowerComparison_linked h]
  exact (succeeds_predicate _).bind fun _ => succeeds_pure _

theorem succeeds_described {nested : Variable → Lower (List Pattern)}
    (free : ¬NeedsLiteral x.ontology c value) (noLiteral : value.literal? = none)
    (h : ∀ v, Succeeds (nested v)) : Succeeds (lowerComparison x c value nested subject) := by
  cases hvalid : value.isValid with
  | false =>
    rw [lowerComparison_existence hvalid]
    exact succeeds_existence x c subject
  | true =>
    cases value with
    | resource r u => exact succeeds_linked free
    | _ =>
      rw [lowerComparison_described hvalid free noLiteral rfl]
      exact succeeds_nestedComparison h

/-- What is expressible is lowered about every subject. -/
theorem Expressible.succeeds_lower (h : Expressible x.ontology t) :
    ∀ subject, Succeeds (lower x t subject) := by
  induction h with
  | literal s l => exact fun subject => (writes_lowerLiteral x l subject).succeeds
  | resource s u => exact fun _ => succeeds_pure _
  | types s us some =>
    obtain ⟨u, us, rfl⟩ := List.exists_cons_of_ne_nil some
    exact fun subject => (writes_lowerTypes u us subject).succeeds
  | group s k ts _ ih =>
    cases k with
    | and => exact succeeds_lowerAll ih
    | or => exact fun subject => (writes_lower_oneOf ih subject).succeeds
  | negation s t _ ih => exact fun subject => (ih subject).inGroup.bind fun _ _ => succeeds_pure _
  | optional s t _ ih => exact fun subject => (ih subject).inGroup.bind fun _ _ => succeeds_pure _
  | existence s c v invalid =>
    intro subject
    rw [lower, lowerComparison_existence invalid]
    exact succeeds_existence x c subject
  | compared s c r l needed =>
    intro subject
    rw [lower, lowerComparison_needed rfl needed]
    exact (writes_literalComparison x c l subject).succeeds
  | labelled s c r l free comparator =>
    intro subject
    rw [lower, lowerComparison_labelled free]
    exact (writes_labelComparison x l subject comparator).succeeds
  | linked s c r u free => exact fun _ => succeeds_linked free
  | described s c v free noLiteral _ ih => exact fun _ => succeeds_described free noLiteral ih

/-! ## What is lowered is expressible -/

/-- The step succeeds in some state. -/
def CanSucceed {α : Type} (m : Lower α) : Prop := ∃ s r, m s = some r

/-- If two steps can succeed together, each of them can. -/
theorem CanSucceed.of_bind {α β : Type} {m : Lower α} {f : α → Lower β} (h : CanSucceed (m >>= f)) :
    CanSucceed m ∧ ∃ a, CanSucceed (f a) := by
  obtain ⟨s, ⟨b, s'⟩, h⟩ := h
  obtain ⟨a, s₁, hm, hf⟩ := bind_eq_some.1 h
  exact ⟨⟨s, _, hm⟩, a, s₁, _, hf⟩

theorem CanSucceed.of_inGroup {α : Type} {m : Lower α} (h : CanSucceed (inGroup m)) : CanSucceed m := by
  obtain ⟨s, ⟨a, s'⟩, h⟩ := h
  obtain ⟨s₁, hm, -⟩ := inGroup_eq_some.1 h
  exact ⟨_, _, hm⟩

theorem not_canSucceed_failure {α : Type} : ¬CanSucceed (failure : Lower α) := by
  rintro ⟨s, r, h⟩
  change none = _ at h
  contradiction

theorem CanSucceed.of_lowerAll (h : CanSucceed (lowerAll x ts subject)) :
    ∀ t ∈ ts, CanSucceed (lower x t subject) := by
  induction ts with
  | nil => simp
  | cons t ts ih =>
    obtain ⟨ht, _, hrest⟩ := h.of_bind
    exact List.forall_mem_cons.2 ⟨ht, ih hrest.of_bind.1⟩

theorem CanSucceed.of_lowerBranches (h : CanSucceed (lowerBranches x ts subject)) :
    ∀ t ∈ ts, CanSucceed (lower x t subject) := by
  induction ts with
  | nil => simp
  | cons t ts ih =>
    obtain ⟨ht, _, hrest⟩ := h.of_bind
    exact List.forall_mem_cons.2 ⟨ht.of_inGroup, ih hrest.of_bind.1⟩

/-- Labels are tested for equality, or searched. -/
theorem comparator_of_labelComparison {l : Literal} (h : CanSucceed (labelComparison x c l subject)) :
    c.comparator = .equal ∨ c.comparator = .contains := by
  obtain ⟨-, _, h⟩ := h.of_bind
  obtain ⟨-, _, h⟩ := h.of_bind
  obtain ⟨-, _, h⟩ := h.of_bind
  dsimp only at h
  split at h
  · exact Or.inl ‹_›
  · exact Or.inr ‹_›
  · exact absurd h not_canSucceed_failure

theorem CanSucceed.of_nestedComparison {nested : Variable → Lower (List Pattern)}
    (h : CanSucceed (nestedComparison x c nested subject)) : ∃ v, CanSucceed (nested v) := by
  obtain ⟨-, _, h⟩ := h.of_bind
  obtain ⟨-, r, h⟩ := h.of_bind
  exact ⟨r.1, h.of_bind.1.of_inGroup⟩

/-- A comparison that is lowered is expressible if its value is, as far as the value is lowered. -/
theorem expressible_comparison {nested : Variable → Lower (List Pattern)} (s : Span)
    (hnested : ∀ v, CanSucceed (nested v) → Expressible x.ontology value)
    (h : CanSucceed (lowerComparison x c value nested subject)) :
    Expressible x.ontology (.comparison s c value) := by
  cases hvalid : value.isValid with
  | false => exact .existence s c value hvalid
  | true =>
    by_cases hneeds : NeedsLiteral x.ontology c value
    · rw [lowerComparison_needed hvalid hneeds] at h
      cases value with
      | literal r l => exact .compared s c r l hneeds
      | _ => exact absurd h not_canSucceed_failure
    · cases value with
      | literal r l =>
        rw [lowerComparison_labelled hneeds] at h
        exact .labelled s c r l hneeds (comparator_of_labelComparison h)
      | resource r u => exact .linked s c r u hneeds
      | _ =>
        rw [lowerComparison_described hvalid hneeds rfl rfl] at h
        obtain ⟨v, hv⟩ := h.of_nestedComparison
        exact .described s c _ hneeds rfl (hnested v hv)

/-- What is lowered at all is expressible. -/
theorem expressible_of_canSucceed (h : CanSucceed (lower x t subject)) : Expressible x.ontology t := by
  induction t generalizing subject with
  | invalid s => exact absurd h not_canSucceed_failure
  | literal s l => exact .literal s l
  | resource s u => exact .resource s u
  | types s us =>
    refine .types s us ?_
    rintro rfl
    exact absurd h not_canSucceed_failure
  | comparison s c v ih => exact expressible_comparison s (fun _ => ih) h
  | negation s t ih => exact .negation s t (ih h.of_bind.1.of_inGroup)
  | optional s t ih => exact .optional s t (ih h.of_bind.1.of_inGroup)
  | group s k ts ih =>
    cases k with
    | and => exact .group s .and ts fun t ht => ih t ht (h.of_lowerAll t ht)
    | or => exact .group s .or ts fun t ht => ih t ht (h.of_bind.1.of_lowerBranches t ht)

/-- Lowering succeeds for expressible terms and for no others, about any subject and in any state. -/
theorem exists_lower_iff : (∃ r, lower x t subject s = some r) ↔ Expressible x.ontology t := by
  constructor
  · rintro ⟨r, h⟩
    exact expressible_of_canSucceed ⟨s, r, h⟩
  · intro h
    obtain ⟨ps, s', h, -⟩ := h.succeeds_lower subject s
    exact ⟨_, h⟩

/-! ## Patterns of a group in which no variable is known -/

section EmptyScope

variable {α : Type} {scope : Scope}

theorem yields_true (m : Lower α) : Yields scope (fun _ _ => True) m := fun _ _ _ _ _ => True.intro

theorem Produces.yields {P : α → Prop} {m : Lower α} (h : Produces P m) :
    Yields scope (fun a _ => P a) m := by
  intro s a s' _ hs
  obtain ⟨b, s₁, hb, hP⟩ := h s
  obtain ⟨rfl, -⟩ := Prod.mk.inj (Option.some.inj (hb.symm.trans hs))
  exact hP

/-- A step may be made on the way to a result. -/
theorem Yields.after {β : Type} {R : β → Scope → Prop} {f : α → Lower β} (m : Lower α)
    (h : ∀ a scope', Yields scope' R (f a)) : Yields scope R (m >>= f) :=
  (yields_true m).bind fun a scope' _ => h a scope'

/-- The first variable of a property in a group is a new one. -/
theorem isFirst_propertyVariable (o : Ontology) (p : Uri) :
    Yields [] (fun r _ => r.2 = true) (propertyVariable o p) := by
  refine (yields_boundVariable? [] p).bind fun bound _ ⟨_, hbound⟩ => ?_
  cases bound with
  | some v => exact absurd (hbound v rfl) List.not_mem_nil
  | none =>
    refine .after _ fun v _ => ?_
    dsimp only
    split
    · exact .after _ fun _ _ => yields_pure rfl
    · exact yields_pure rfl

theorem isFirst_valueVariable (o : Ontology) (c : Comparison) :
    Yields [] (fun r _ => r.2.1 = true) (valueVariable o c) := by
  rw [valueVariable]
  split
  · -- A variable with a name is always stated, whether or not its property is bound to it.
    cases c.property with
    | none =>
      cases c.aggregate with
      | none => exact .after _ fun _ _ => yields_pure rfl
      | some a => exact .after _ fun _ _ => .after _ fun _ _ => yields_pure rfl
    | some p =>
      refine .after _ fun _ _ => ?_
      cases c.aggregate with
      | none => exact .after _ fun _ _ => yields_pure rfl
      | some a => exact .after _ fun _ _ => .after _ fun _ _ => yields_pure rfl
  · have hplain : Yields [] (fun r _ => r.2 = true) (plainVariable o c) := by
      rw [plainVariable]
      split
      · exact isFirst_propertyVariable o _
      · exact .after _ fun _ _ => yields_pure rfl
    exact hplain.bind fun r _ hr => yields_pure hr

/-- In a group in which nothing is known the variable of a comparison is new. -/
theorem isFirst_mainVariable (o : Ontology) (c : Comparison) :
    Yields [] (fun r _ => r.2 = true) (mainVariable o c) := by
  refine (isFirst_valueVariable o c).bind fun r _ hr => ?_
  dsimp only
  split
  · split
    · exact .after _ fun _ _ => .after _ fun _ _ => yields_pure hr
    · exact .after _ fun _ _ => yields_pure hr
  · exact yields_pure hr

/-- With a new variable for its value a comparison writes what it states of the value. -/
theorem yields_stated (o : Ontology) (c : Comparison)
    {f : Node → Variable × Bool → Lower (List Pattern)}
    (h : ∀ p v scope, Yields scope (fun ps _ => ps ≠ []) (f p (v, true))) :
    Yields [] (fun ps _ => ps ≠ []) (predicate c.property >>= fun p => mainVariable o c >>= f p) := by
  refine (leavesScope_predicate c.property).bind fun p _ => ?_
  refine (isFirst_mainVariable o c).bind fun r scope hr => ?_
  obtain ⟨v, isFirst⟩ := r
  obtain rfl : isFirst = true := hr
  exact h p v scope

theorem yields_existence (x : Setting) (c : Comparison) (subject : Variable) :
    Yields [] (fun ps _ => ps ≠ []) (existence x c subject) := by
  refine yields_stated _ c fun p v scope => ?_
  dsimp only
  split
  · exact yields_pure (by simp)
  · exact yields_pure (by simp)

theorem yields_labelComparison (x : Setting) (c : Comparison) (l : Literal) (subject : Variable) :
    Yields [] (fun ps _ => ps ≠ []) (labelComparison x c l subject) := by
  refine yields_stated _ c fun p v scope => .after _ fun label _ => ?_
  dsimp only
  split
  · exact yields_pure (by simp)
  · exact .after _ fun _ _ => .after _ fun _ _ => yields_pure (by simp)
  · exact yields_failure

theorem yields_nestedComparison (x : Setting) (c : Comparison)
    (nested : Variable → Lower (List Pattern)) (subject : Variable) :
    Yields [] (fun ps _ => ps ≠ []) (nestedComparison x c nested subject) :=
  yields_stated _ c fun _ _ _ => .after _ fun _ _ => yields_pure (by simp)

/-- A comparison at the start of a group writes something. -/
theorem yields_lowerComparison (x : Setting) (c : Comparison) (value : Term)
    (nested : Variable → Lower (List Pattern)) (subject : Variable) :
    Yields [] (fun ps _ => ps ≠ []) (lowerComparison x c value nested subject) := by
  cases hvalid : value.isValid with
  | false =>
    rw [lowerComparison_existence hvalid]
    exact yields_existence x c subject
  | true =>
    by_cases hneeds : NeedsLiteral x.ontology c value
    · rw [lowerComparison_needed hvalid hneeds]
      cases value.literal? with
      | none => exact yields_failure
      | some l => exact (writes_literalComparison x c l subject).yields
    · cases value with
      | literal r l =>
        rw [lowerComparison_labelled hneeds]
        exact yields_labelComparison x c l subject
      | resource r u =>
        rw [lowerComparison_linked hneeds]
        exact .after _ fun _ _ => yields_pure (by simp)
      | _ =>
        rw [lowerComparison_described hvalid hneeds rfl rfl]
        exact yields_nestedComparison x c nested subject

end EmptyScope

/-! ## Groups with members -/

/-- No group of terms that all hold is without members, at any depth. -/
def Full (t : Term) : Prop := ∀ s ts, t.Part (.group s .and ts) → ts ≠ []

/-- A term has members in all its conjunctions if it does itself and the terms inside it do. -/
theorem full_iff : Full t ↔ (∀ s ts, t = .group s .and ts → ts ≠ []) ∧ ∀ u ∈ t.children, Full u := by
  constructor
  · exact fun h => ⟨fun s ts heq => h s ts (heq ▸ .self), fun u hu s ts hpart => h s ts (.of_child hu hpart)⟩
  · rintro ⟨hself, hchildren⟩ s ts hpart
    rcases hpart.eq_self_or with heq | ⟨u, hu, hpart⟩
    · exact hself s ts heq.symm
    · exact hchildren u hu s ts hpart

theorem full_of_childless (hand : ∀ s ts, t ≠ .group s .and ts) (h : t.children = []) : Full t :=
  full_iff.2 ⟨fun s ts heq => absurd heq (hand s ts), by simp [h]⟩

theorem full_of_inner {u : Term} (hand : ∀ s ts, t ≠ .group s .and ts) (h : t.children = [u])
    (hu : Full u) : Full t :=
  full_iff.2 ⟨fun s ts heq => absurd heq (hand s ts), by simpa [h] using hu⟩

theorem full_allOf (hts : ts ≠ []) (h : ∀ t ∈ ts, Full t) : Full (Term.allOf ts) :=
  full_iff.2 ⟨fun _ _ heq => (Term.group.inj heq).2.2 ▸ hts, h⟩

theorem full_oneOf (h : ∀ t ∈ ts, Full t) : Full (Term.oneOf ts) :=
  full_iff.2 ⟨fun _ _ heq => by simp [Term.oneOf] at heq, h⟩

/-- Lowered in the empty scope, a term without empty groups writes something, if it can be lowered. -/
theorem Full.yields_lower (h : Full t) :
    Yields [] (fun ps _ => ps ≠ []) (lower x t subject) := by
  induction t with
  | invalid s => exact yields_failure
  | literal s l => exact (writes_lowerLiteral x l subject).yields
  | resource s u => exact yields_pure (by simp)
  | types s us =>
    cases us with
    | nil => exact yields_failure
    | cons u us => exact (writes_lowerTypes u us subject).yields
  | comparison s c v _ => exact yields_lowerComparison x c v _ subject
  | negation s t _ => exact .after _ fun _ _ => yields_pure (by simp)
  | optional s t _ => exact .after _ fun _ _ => yields_pure (by simp)
  | group s k ts ih =>
    cases k with
    | or => exact .after _ fun _ _ => yields_pure (by simp)
    | and =>
      -- The first member is lowered in the scope of the group.
      obtain ⟨hself, hmembers⟩ := full_iff.1 h
      obtain ⟨t, ts, rfl⟩ := List.exists_cons_of_ne_nil (hself s ts rfl)
      have hfirst := ih t (by simp) (hmembers t (by simp))
      exact hfirst.bind fun ps _ hps => .after _ fun _ _ => yields_pure (by simp [hps])

theorem full_alternatives (h : ∀ t ∈ ts, Full t) : Full (alternatives ts) := by
  match ts with
  | [] => exact full_of_childless (by simp [alternatives, Term.nothing]) rfl
  | [t] => exact h t (by simp)
  | t :: u :: ts => exact full_oneOf h

/-- Refining keeps the members of groups, of which a normal term has two at least. -/
theorem full_refine (h : t.Proper) : Full (refine o t) := by
  induction h with
  | literal s l => exact full_of_childless (by simp [refine]) rfl
  | resource s u => exact full_of_childless (by simp [refine]) rfl
  | types s us => exact full_of_childless (by simp [refine]) rfl
  | existence s c v invalid =>
    cases v with
    | invalid r => exact full_of_inner (by simp [refine]) rfl (full_of_childless (by simp [refine]) rfl)
    | _ => simp [Term.isValid] at invalid
  | comparison s c v _ ih => exact full_of_inner (by simp [refine]) rfl ih
  | negation s t _ _ ih => exact full_of_inner (by simp [refine]) rfl ih
  | optional s t _ _ ih => exact full_of_inner (by simp [refine]) rfl ih
  | group s k ts two _ _ _ ih =>
    cases k with
    | and =>
      obtain ⟨t, ht⟩ := List.exists_mem_of_length_pos (Nat.lt_of_lt_of_le Nat.zero_lt_two two)
      rw [refine]
      refine full_allOf (List.ne_nil_of_mem (mem_refineNamed.2 ⟨t, ht, rfl⟩)) fun u hu => ?_
      obtain ⟨t, ht, rfl⟩ := mem_refineNamed.1 hu
      exact ih t ht
    | or =>
      rw [refine]
      refine full_alternatives (List.forall_mem_append.2 ⟨fun u hu => ?_, fun u hu => ?_⟩)
      · obtain ⟨t, ht, -, rfl⟩ := mem_refineOthers.1 hu
        exact ih t ht
      · split at hu
        · simp at hu
        · rw [List.mem_singleton.1 hu]
          exact full_of_childless (by simp) rfl

theorem full_typeAnchor : Full typeAnchor :=
  full_of_inner (by simp [typeAnchor, Term.compare]) rfl (full_of_childless (by simp [Term.nothing]) rfl)

theorem Full.anchor (h : Full t) : Full (anchor t) := by
  induction t with
  | invalid s => exact h
  | literal s l => exact h
  | resource s u => exact h
  | types s us => exact h
  | comparison s c v ih =>
    exact full_of_inner (by simp [Sparql.anchor]) rfl (ih ((full_iff.1 h).2 v (by simp)))
  | negation s t ih =>
    rw [Sparql.anchor]
    exact full_allOf (by simp) (by simpa using ⟨h, full_typeAnchor⟩)
  | optional s t ih =>
    exact full_of_inner (by simp [Sparql.anchor]) rfl (ih ((full_iff.1 h).2 t (by simp)))
  | group s k ts ih =>
    obtain ⟨hself, hmembers⟩ := full_iff.1 h
    cases k with
    | or =>
      rw [Sparql.anchor, anchorAll_eq]
      refine full_oneOf ?_
      rw [List.forall_mem_map]
      exact fun t ht => ih t ht (hmembers t ht)
    | and =>
      rw [Sparql.anchor, anchorMembers_eq]
      refine full_allOf (by simp [hself s ts rfl]) (List.forall_mem_append.2 ⟨?_, fun u hu => ?_⟩)
      · rw [List.forall_mem_map]
        intro t ht
        split
        · exact hmembers t ht
        · exact ih t ht (hmembers t ht)
      · split at hu
        · exact List.mem_singleton.1 hu ▸ full_typeAnchor
        · simp at hu

/-- No group of a prepared term is without members. -/
theorem full_prepared (o : Ontology) (q : Query) (counting : Bool) : Full (prepared o q counting) := by
  refine Full.anchor ?_
  cases Term.isNormal_optimize (wholeTerm q counting) with
  | inr hproper => exact full_refine hproper
  | inl hinvalid =>
    cases ht : (wholeTerm q counting).optimize with
    | invalid s => exact full_of_childless (by simp [refine]) rfl
    | _ => simp [ht, Term.isValid] at hinvalid

/-! ## Queries -/

/-- A query has no patterns exactly if its prepared term says nothing or is not expressible. -/
theorem body?_eq_none_iff (o : Ontology) (q : Query) (f : Flags) : body? o q f = none ↔
    (prepared o q f.counting).isValid = false ∨ ¬Expressible o (prepared o q f.counting) := by
  let x : Setting := ⟨o, f.inverses, q.scoring && !f.counting⟩
  cases hvalid : (prepared o q f.counting).isValid with
  | false => simp [body?, hvalid]
  | true =>
    by_cases hexpressible : Expressible o (prepared o q f.counting)
    · obtain ⟨⟨ps, s⟩, hlower⟩ : ∃ r, lower x (prepared o q f.counting) .result {} = some r :=
        exists_lower_iff.2 hexpressible
      have hps : ps.isEmpty = false := by
        simpa using (full_prepared o q f.counting).yields_lower {} ps s rfl hlower
      have hbody : body? o q f ≠ none := by
        rw [body?]
        simp only [hvalid, hlower, x, hps, Bool.not_true, Option.bind_eq_bind, Option.bind_some]
        split
        · contradiction
        split
        · exact Option.some_ne_none _
        · exact Option.some_ne_none _
      simp [hbody, hexpressible]
    · have hlower : lower x (prepared o q f.counting) .result {} = none := by
        rw [Option.eq_none_iff_forall_ne_some]
        exact fun r h => hexpressible (exists_lower_iff.1 ⟨r, h⟩)
      simp [body?, hvalid, hlower, x, hexpressible]

/-- A query compiles to the empty text exactly if its prepared term says nothing or is not expressible. -/
theorem compile_eq_empty_iff (o : Ontology) (q : Query) (flags : Flags) : compile o q flags = "" ↔
    (prepared o q flags.counting).isValid = false ∨ ¬Expressible o (prepared o q flags.counting) := by
  have hbody := body?_eq_none_iff o q (flags.withQuery q.flags)
  refine Iff.trans ⟨fun hempty => ?_, fun hnone => by rw [compile, hnone]⟩ hbody
  rw [Option.eq_none_iff_forall_ne_some]
  exact fun r h => compile_ne_empty h hempty

/-- Lowering succeeds exactly for expressible terms, and a query compiles to the empty text exactly if its
prepared term says nothing or is not expressible. -/
theorem lowering_expressible :
    (∀ (x : Setting) (t : Term) (subject : Variable) (s : Lowering),
      (∃ r, lower x t subject s = some r) ↔ Expressible x.ontology t) ∧
    ∀ (o : Ontology) (q : Query) (flags : Flags), compile o q flags = "" ↔
      (prepared o q flags.counting).isValid = false ∨
        ¬Expressible o (prepared o q flags.counting) :=
  ⟨fun _ _ _ _ => exists_lower_iff, compile_eq_empty_iff⟩

end DesktopSearch.Sparql
