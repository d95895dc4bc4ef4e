import DesktopSearch.Ontology.Desktop
import DesktopSearch.Proofs.Sparql.Compilation
import DesktopSearch.Proofs.Sparql.Fetched

/-!
# Named comparisons

A comparison with a named variable asks for a column. What is asked for is decided in one place,
`mainVariable` : the column, the sort key if the comparison has a weight, and that the variable is new, so
that a statement about it is written (`fetches_mainVariable`). All ways of lowering a comparison come by that
place but one. A comparison with a resource is its statement alone (`lower_comparison_resource`), named or
not. So among the comparisons that hold of the result, exactly those are sure to be fetched that are left
with no resource for a value when the query is prepared (`named_fetched`).
-/

namespace DesktopSearch.Sparql

open Sparql.Pattern

/-! ## What is asked for -/

/-- The column that a comparison is selected as under its name, and the variable of its value : the named
variable itself, or another one that is aggregated under the name. -/
inductive SelectedAs (c : Comparison) (name : String) : Variable → Column → Prop
  | value (h : c.aggregate = none) : SelectedAs c name (.named name) (.value (.named name))
  | aggregate (a : Aggregate) (v : Variable) (h : c.aggregate = some a) :
    SelectedAs c name v (.aggregate a v (.named name))

/-- The comparison is selected under its name, and sorted by if it has a weight. -/
structure Fetches (c : Comparison) (name : String) (v : Variable) (s : Lowering) : Prop where
  column : ∃ column, SelectedAs c name v column ∧ column.text ∈ s.columns.map Column.text
  sortKey : c.sortWeight ≠ 0 → ⟨.value (.named name), c.sortWeight, c.sortOrder⟩ ∈ s.sortKeys

variable {x : Setting} {c : Comparison} {name : String} {v subject : Variable} {s s' : Lowering}
  {own : List Pattern}

theorem Fetches.mono (h : Fetches c name v s) (hkept : s.Keeps s') : Fetches c name v s' := by
  obtain ⟨column, hselected, hmem⟩ := h.column
  exact ⟨⟨column, hselected, (hkept.columns.map _).subset hmem⟩,
    fun hw => hkept.sortKeys.subset (h.sortKey hw)⟩

/-! ## The variable of a comparison -/

/-- The variable of a comparison is new, its name is the key it is sorted by, and it is selected. -/
def Names (c : Comparison) (name : String) (r : Variable × Bool × Expression) (s : Lowering) : Prop :=
  r.2 = (true, .value (.named name)) ∧
    ∃ column, SelectedAs c name r.1 column ∧ column.text ∈ s.columns.map Column.text

theorem names_valueVariable (hname : c.variableName = some name) {o : Ontology}
    {r : Variable × Bool × Expression} (h : valueVariable o c s = some (r, s')) :
    Names c name r s' := by
  have hvalue (ha : c.aggregate = none) {s₁ : Lowering}
      (h : (do addColumn (.value (.named name))
               return (.named name, true, .value (.named name)) :
        Lower (Variable × Bool × Expression)) s₁ = some (r, s')) : Names c name r s' := by
    obtain ⟨rfl, rfl⟩ := Prod.mk.inj (Option.some.inj h)
    exact ⟨rfl, _, .value ha, text_mem_select s₁ _⟩
  have haggregate {a : Aggregate} (ha : c.aggregate = some a) {s₁ : Lowering}
      (h : (do let v ← freshVariable
               addColumn (.aggregate a v (.named name))
               return (v, true, .value (.named name)) :
        Lower (Variable × Bool × Expression)) s₁ = some (r, s')) : Names c name r s' := by
    obtain ⟨rfl, rfl⟩ := Prod.mk.inj (Option.some.inj h)
    exact ⟨rfl, _, .aggregate a _ ha, text_mem_select _ _⟩
  simp only [valueVariable, hname] at h
  generalize c.property = property at h
  cases property with
  | none =>
    cases ha : c.aggregate with
    | none =>
      rw [ha] at h
      exact hvalue ha h
    | some a =>
      rw [ha] at h
      exact haggregate ha h
  | some p =>
    obtain ⟨-, s₁, -, h⟩ := bind_eq_some.1 h
    cases ha : c.aggregate with
    | none =>
      rw [ha] at h
      exact hvalue ha h
    | some a =>
      rw [ha] at h
      exact haggregate ha h

/-- The variable of a named comparison is new, and all that the comparison asks for is decided with it. -/
theorem fetches_mainVariable (hname : c.variableName = some name) {o : Ontology}
    {r : Variable × Bool} (h : mainVariable o c s = some (r, s')) :
    r.2 = true ∧ Fetches c name r.1 s' := by
  obtain ⟨⟨v, isFirst, key⟩, s₁, hvalue, h⟩ := bind_eq_some.1 h
  obtain ⟨hnew, column, hselected, hcolumn⟩ := names_valueVariable hname hvalue
  obtain ⟨rfl, rfl⟩ := Prod.mk.inj hnew
  have hsorted {s₂ : Lowering} (hkept : s₁.Keeps s₂)
      (h : (do addSortKey ⟨.value (.named name), c.sortWeight, c.sortOrder⟩
               return (v, true) : Lower (Variable × Bool)) s₂ = some (r, s')) :
      r.2 = true ∧ Fetches c name r.1 s' := by
    obtain ⟨rfl, rfl⟩ := Prod.mk.inj (Option.some.inj h)
    exact ⟨rfl, ⟨column, hselected, (hkept.columns.map _).subset hcolumn⟩,
      fun _ => List.mem_append_right _ (List.mem_singleton_self _)⟩
  by_cases hw : c.sortWeight ≠ 0
  · simp only [if_pos hw] at h
    cases ha : c.aggregate with
    | none =>
      rw [ha] at h
      obtain ⟨⟨⟩, s₂, hagain, h⟩ := bind_eq_some.1 h
      obtain ⟨-, rfl⟩ := Prod.mk.inj (Option.some.inj hagain)
      exact hsorted (Trace.addColumn (.value (.named name)) s₁).keeps h
    | some a =>
      rw [ha] at h
      exact hsorted (.refl s₁) h
  · simp only [if_neg hw] at h
    obtain ⟨rfl, rfl⟩ := pure_eq_some.1 h
    exact ⟨rfl, ⟨column, hselected, hcolumn⟩, fun hweight => absurd hweight hw⟩

/-! ## Ways of lowering a comparison -/

/-- The comparison is fetched, and a pattern binds the variable of its value. -/
def FetchedBy (c : Comparison) (name : String) (own : List Pattern) (s : Lowering) : Prop :=
  ∃ v, Fetches c name v s ∧ ∃ p ∈ own, v ∈ p.binds

theorem binds_resourceStatement (p : Node) (value : Node) :
    value.variables ⊆ (resourceStatement x c p subject value).binds := by
  intro v hv
  rw [resourceStatement]
  split <;> rw [binds_statement] <;> simp [hv]

theorem fetchedBy_existence (hname : c.variableName = some name)
    (h : existence x c subject s = some (own, s')) : FetchedBy c name own s' := by
  obtain ⟨p, s₁, -, h⟩ := bind_eq_some.1 h
  obtain ⟨⟨v, isFirst⟩, s₂, hmain, h⟩ := bind_eq_some.1 h
  obtain ⟨rfl, hfetches⟩ := fetches_mainVariable hname hmain
  dsimp only at h
  split at h
  · obtain ⟨rfl, rfl⟩ := pure_eq_some.1 h
    exact ⟨v, hfetches, _, List.mem_singleton_self _, by simp [binds, Node.variables]⟩
  · obtain ⟨rfl, rfl⟩ := pure_eq_some.1 h
    exact ⟨v, hfetches, _, List.mem_singleton_self _, by simp [binds, Node.variables]⟩

/-- Searching for a text selects nothing. -/
theorem keeps_containsPattern {scoring counts : Bool} {text : String} {p : Pattern}
    (h : containsPattern scoring v text counts s = some (p, s')) : s.Keeps s' := by
  rw [containsPattern] at h
  dsimp only at h
  split at h
  · obtain ⟨-, rfl⟩ := pure_eq_some.1 h
    exact .refl s
  split at h
  · obtain ⟨-, rfl⟩ := pure_eq_some.1 h
    exact .refl s
  split at h
  · obtain ⟨-, rfl⟩ := Prod.mk.inj (Option.some.inj h)
    exact ⟨List.prefix_rfl, List.prefix_rfl⟩
  · obtain ⟨-, rfl⟩ := Prod.mk.inj (Option.some.inj h)
    exact ⟨List.prefix_rfl, List.prefix_rfl⟩

theorem fetchedBy_literalComparison (hname : c.variableName = some name) {l : Literal}
    (h : literalComparison x c l subject s = some (own, s')) : FetchedBy c name own s' := by
  obtain ⟨p, s₁, -, h⟩ := bind_eq_some.1 h
  rw [if_neg (by simp [hname])] at h
  obtain ⟨⟨v, isFirst⟩, s₂, hmain, h⟩ := bind_eq_some.1 h
  obtain ⟨rfl, hfetches⟩ := fetches_mainVariable hname hmain
  have hbound {filter : Pattern} {s₃ : Lowering} (hkept : s₂.Keeps s₃) :
      FetchedBy c name [.triple (.var subject) p (.var v), filter] s₃ :=
    ⟨v, hfetches.mono hkept, _, List.mem_cons_self, by simp [binds, Node.variables]⟩
  generalize c.comparator = comparator at h
  cases comparator with
  | contains =>
    obtain ⟨filter, s₃, hfilter, h⟩ := bind_eq_some.1 h
    obtain ⟨rfl, rfl⟩ := pure_eq_some.1 h
    exact hbound (keeps_containsPattern hfilter)
  | _ =>
    obtain ⟨rfl, rfl⟩ := Prod.mk.inj (Option.some.inj h)
    exact hbound (.refl s₂)

theorem fetchedBy_labelComparison (hname : c.variableName = some name) {l : Literal}
    (h : labelComparison x c l subject s = some (own, s')) : FetchedBy c name own s' := by
  obtain ⟨p, s₁, -, h⟩ := bind_eq_some.1 h
  obtain ⟨⟨v, isFirst⟩, s₂, hmain, h⟩ := bind_eq_some.1 h
  obtain ⟨rfl, hfetches⟩ := fetches_mainVariable hname hmain
  obtain ⟨label, s₃, hlabel, h⟩ := bind_eq_some.1 h
  obtain ⟨-, rfl⟩ := Prod.mk.inj (Option.some.inj hlabel)
  have hhead (rest : List Pattern) : ∃ q ∈ [statement x c p (.var subject) (.var v)] ++ rest,
      v ∈ q.binds := ⟨_, List.mem_cons_self, by simp [binds_statement, Node.variables]⟩
  generalize c.comparator = comparator at h
  cases comparator with
  | equal =>
    obtain ⟨rfl, rfl⟩ := pure_eq_some.1 h
    exact ⟨v, hfetches.mono ⟨List.prefix_rfl, List.prefix_rfl⟩, hhead _⟩
  | contains =>
    obtain ⟨text, s₄, htext, h⟩ := bind_eq_some.1 h
    obtain ⟨-, rfl⟩ := Prod.mk.inj (Option.some.inj htext)
    obtain ⟨contains, s₅, hcontains, h⟩ := bind_eq_some.1 h
    obtain ⟨rfl, rfl⟩ := pure_eq_some.1 h
    have hkept := keeps_containsPattern hcontains
    exact ⟨v, hfetches.mono ⟨hkept.columns, hkept.sortKeys⟩, hhead _⟩
  | _ => contradiction

theorem fetchedBy_nestedComparison (hname : c.variableName = some name) (t : Term)
    (hs : Material.all.Covers s)
    (h : nestedComparison x c (lower x t) subject s = some (own, s')) : FetchedBy c name own s' := by
  obtain ⟨p, s₁, hpredicate, h⟩ := bind_eq_some.1 h
  obtain ⟨⟨v, isFirst⟩, s₂, hmain, h⟩ := bind_eq_some.1 h
  obtain ⟨rfl, hfetches⟩ := fetches_mainVariable hname hmain
  obtain ⟨ps, s₃, hnested, h⟩ := bind_eq_some.1 h
  obtain ⟨rfl, rfl⟩ := pure_eq_some.1 h
  -- What the value is lowered to selects and sorts, too, and leaves what has been decided.
  obtain ⟨-, hs₁, -⟩ := makes_predicate c.property s p s₁ rfl hs hpredicate
  obtain ⟨-, hs₂, hv⟩ := makes_mainVariable _ (fun _ _ => trivial) s₁ _ s₂ rfl hs₁ hmain
  obtain ⟨⟨vs, htrace⟩, -, -⟩ :=
    (makes_lower t (Material.gives_all t) hv).inGroup s₂ ps s₃ rfl hs₂ hnested
  refine ⟨v, hfetches.mono htrace.keeps, _, List.mem_cons_self, ?_⟩
  exact binds_resourceStatement p (.var v) (List.mem_singleton_self v)

/-- A named comparison whose value is no resource is fetched. -/
theorem fetchedBy_lower (hname : c.variableName = some name) {r : Span} {t : Term}
    (ht : t.resource? = none) (hs : Material.all.Covers s)
    (h : lower x (.comparison r c t) subject s = some (own, s')) : FetchedBy c name own s' := by
  rw [lower] at h
  unfold lowerComparison at h
  split at h
  · exact fetchedBy_existence hname h
  split at h
  · cases hl : t.literal? with
    | some l =>
      rw [hl] at h
      exact fetchedBy_literalComparison hname h
    | none =>
      rw [hl] at h
      contradiction
  · cases t with
    | literal r' l => exact fetchedBy_labelComparison hname h
    | resource r' u => simp [Term.resource?] at ht
    | _ => exact fetchedBy_nestedComparison hname _ hs h

/-- A comparison with a resource is its statement alone, and nothing is selected or sorted by. -/
theorem lower_comparison_resource {r : Span} {t : Term} {u : Uri} (ht : t.resource? = some u)
    (h : lower x (.comparison r c t) subject s = some (own, s')) :
    ∃ p, own = [resourceStatement x c p subject (.uri u)] ∧ s'.columns = s.columns ∧
      s'.sortKeys = s.sortKeys := by
  cases t with
  | resource r u' =>
    obtain rfl := Option.some.inj ht
    rw [lower, lowerComparison, if_neg (by simp [Term.isValid])] at h
    split at h
    · contradiction
    · obtain ⟨p, s₁, hpredicate, h⟩ := bind_eq_some.1 h
      obtain ⟨rfl, rfl⟩ := pure_eq_some.1 h
      refine ⟨p, rfl, ?_⟩
      cases hproperty : c.property with
      | none =>
        rw [hproperty] at hpredicate
        obtain ⟨-, rfl⟩ := Prod.mk.inj (Option.some.inj hpredicate)
        exact ⟨rfl, rfl⟩
      | some q =>
        rw [hproperty] at hpredicate
        obtain ⟨-, rfl⟩ := pure_eq_some.1 hpredicate
        exact ⟨rfl, rfl⟩
  | _ => simp [Term.resource?] at ht

/-! ## Members of a query -/

variable {o : Ontology} {q : Query} {f : Flags} {ps : List Pattern}

theorem resource?_anchor (t : Term) : (anchor t).resource? = t.resource? := by
  cases t with
  | group s k ts => cases k <;> rfl
  | _ => rfl

/-- What a value is when it is lowered can be told from its normal form. -/
theorem resource?_readied (o : Ontology) (t : Term) :
    (anchor (refine o t.canonical)).resource? = (refine o t.optimize).resource? := by
  rw [resource?_anchor, Term.canonical, ← bare_refine, Term.resource?_bare]

/-- A comparison that holds of the result is lowered somewhere, with its value as it is prepared, and what is
decided there stays. -/
theorem exists_lower_of_comparison {r : Span} {t : Term} (h : body? o q f = some (ps, s))
    (hc : .comparison r c t ∈ q.term.spread .and) :
    ∃ own s₁ s₂, Material.all.Covers s₁ ∧
      lower (.ofQuery o q f) (.comparison .empty c (anchor (refine o t.canonical))) .result s₁ =
        some (own, s₂) ∧ own ⊆ ps ∧ s₂.Keeps s := by
  obtain ⟨qs, s₁, hlower, -, rfl, hcolumns, hkeys⟩ := exists_lower_of_body? h
  have hmem : anchor (refine o (.comparison .empty c t.canonical)) ∈
      readied o (Term.share .and (wholeTerm q f.counting)) :=
    mem_readied (mem_share_wholeTerm_of_mem (Term.comparison_mem_share hc)) rfl
  rw [lower_prepared _ (isValid_canonical_of_lower hlower)] at hlower
  obtain ⟨front, own, rest, s₂, s₃, hs₂, hown, rfl, hkept⟩ := exists_of_mem_lowerAll hmem hlower
  refine ⟨own, s₂, s₃, hs₂, hown, fun p hp => ?_,
    ⟨hcolumns ▸ hkept.columns, hkeys ▸ hkept.sortKeys⟩⟩
  exact List.mem_append_left _ (List.mem_append_right _ (List.mem_append_left _ hp))

/-- The results of a query are sorted by its sort keys. -/
theorem mem_orderClause {k : SortKey} (hk : k ∈ s.sortKeys) (scoring : Bool) :
    ∃ keys, orderClause q scoring s = " ORDER BY " ++ " ".intercalate keys ∧
      orderText k.expression.text k.order ∈ keys := by
  have hmem : (k.weight, orderText k.expression.text k.order) ∈
      s.sortKeys.map (fun k => (k.weight, orderText k.expression.text k.order)) ++
        if scoring && !s.searches.isEmpty then [(0, orderText scoreName q.scoringOrder)] else [] :=
    List.mem_append_left _ (List.mem_map.2 ⟨k, hk, rfl⟩)
  rw [orderClause]
  dsimp only
  rw [if_neg (by simpa using List.ne_nil_of_mem hmem)]
  exact ⟨_, rfl, List.mem_map.2 ⟨_, List.mem_mergeSort.2 hmem, rfl⟩⟩

/-- A selection that compiles lists its columns, and tells the order of its results, such that the following
holds of every comparison with a name that is the term of the query or a member of it, if that is a
conjunction. If its value is no resource when the query is prepared, it is listed under its name, aggregated
if it is, some pattern binds the variable of its value, and the results are sorted by its name if it has a
weight. If its value is a resource, its statement is one of the patterns. -/
theorem named_fetched (o : Ontology) (q : Query) (flags : Flags) (h : compile o q flags ≠ "")
    (hask : flags.ask = false) (hcount : flags.count = false) :
    let f := flags.withQuery q.flags
    ∃ ps s columns order, body? o q f = some (ps, s) ∧
      compile o q flags = String.ofList (squeeze ("select distinct ?r " ++ " ".intercalate columns ++ " " ++
        whereText ps ++ order ++ pageClause q).toList) ∧
      ∀ r c t name, .comparison r c t ∈ q.term.spread .and → c.variableName = some name →
        ((refine o t.optimize).resource? = none → ∃ v column, SelectedAs c name v column ∧
          column.text ∈ columns ∧ (∃ p ∈ ps, v ∈ p.binds) ∧
          (c.sortWeight ≠ 0 → ∃ keys, order = " ORDER BY " ++ " ".intercalate keys ∧
            orderText ("?" ++ name) c.sortOrder ∈ keys)) ∧
        ∀ u, (refine o t.optimize).resource? = some u →
          ∃ p, resourceStatement (.ofQuery o q f) c p .result (.uri u) ∈ ps := by
  intro f
  obtain ⟨ps, s, hbody, htext⟩ := exists_body?_of_compile h
  rw [assemble_selection (f := f) hask hcount] at htext
  refine ⟨ps, s, _, _, hbody, htext, fun r c t name hmem hname => ?_⟩
  obtain ⟨own, s₁, s₂, hs₁, hlower, hown, hkept⟩ := exists_lower_of_comparison hbody hmem
  constructor
  · intro ht
    rw [← resource?_readied] at ht
    obtain ⟨v, hfetches, p, hp, hv⟩ := fetchedBy_lower hname ht hs₁ hlower
    obtain ⟨⟨column, hselected, hcolumn⟩, hkey⟩ := hfetches.mono hkept
    refine ⟨v, column, hselected, ?_, ⟨p, hown hp, hv⟩, fun hw => mem_orderClause (hkey hw) _⟩
    exact List.mem_append_left _ (List.mem_append_left _ hcolumn)
  · intro u hu
    rw [← resource?_readied] at hu
    obtain ⟨p, rfl, -⟩ := lower_comparison_resource hu hlower
    exact ⟨p, hown (List.mem_singleton_self _)⟩

/-- Reports with their sender, the last sender first, and with the number of their tags. -/
theorem named_fetched_senders :
    let sender : Comparison :=
      { property := some Vocabulary.Nmo.messageFrom, variableName := some "sender", sortWeight := 2,
        sortOrder := .descending }
    let tags : Comparison :=
      { property := some Vocabulary.Nao.hasTag, comparator := .equal, variableName := some "tags",
        aggregate := some .count }
    let q : Query := .ofTerm (.allOf [.ofLiteral (.string "report"),
      .comparison .empty sender (.ofLiteral (.string "Alice")), .comparison .empty tags .nothing])
    compile .desktop q {} ≠ "" ∧ ∃ ps s columns order,
      body? .desktop q (Flags.withQuery {} q.flags) = some (ps, s) ∧
      compile .desktop q {} = String.ofList (squeeze ("select distinct ?r " ++
        " ".intercalate columns ++ " " ++ whereText ps ++ order ++ pageClause q).toList) ∧
      (Variable.named "sender").text ∈ columns ∧ (∃ p ∈ ps, .named "sender" ∈ p.binds) ∧
      (∃ keys, order = " ORDER BY " ++ " ".intercalate keys ∧
        orderText (Variable.named "sender").text .descending ∈ keys) ∧
      ∃ v, (Column.aggregate .count v (.named "tags")).text ∈ columns ∧ ∃ p ∈ ps, v ∈ p.binds := by
  intro sender tags q
  have hcompile : compile .desktop q {} ≠ "" :=
    (Option.isSome_iff_exists.1 (by decide +kernel)).elim fun _ => compile_ne_empty
  obtain ⟨ps, s, columns, order, hbody, htext, hnamed⟩ := named_fetched .desktop q {} hcompile rfl rfl
  have hsender := (hnamed .empty sender (.ofLiteral (.string "Alice")) "sender"
    (List.mem_cons_of_mem _ List.mem_cons_self) rfl).1 rfl
  have htags := (hnamed .empty tags .nothing "tags"
    (List.mem_cons_of_mem _ (List.mem_cons_of_mem _ List.mem_cons_self)) rfl).1 rfl
  obtain ⟨_, _, hselected, hcolumn, hbound, hsorted⟩ := hsender
  obtain ⟨v, _, hcounted, hcount, hbinds, -⟩ := htags
  cases hselected with
  | aggregate a v ha => nomatch ha
  | value _ =>
    cases hcounted with
    | value ha => nomatch ha
    | aggregate a v ha =>
      obtain rfl := Option.some.inj ha
      exact ⟨hcompile, ps, s, columns, order, hbody, htext, hcolumn, hbound, hsorted (by decide), v,
        hcount, hbinds⟩

/-- What is related to a contact is compared with the contact itself : nothing is listed under the name of the
comparison, nothing is bound to it, and the results are not sorted. -/
theorem named_not_fetched_resource :
    let related : Comparison :=
      { property := some Vocabulary.Nie.relatedTo, comparator := .equal, variableName := some "x",
        sortWeight := 1 }
    let q : Query := .ofTerm (.comparison .empty related (.resource .empty ⟨"urn:contact:alice"⟩))
    let flags : Flags := { noResultRestrictions := true }
    compile .desktop q flags = "select distinct ?r where \x7b " ++
      "?r <http://www.semanticdesktop.org/ontologies/2007/01/19/nie#relatedTo> <urn:contact:alice> . \x7d" ∧
    ∃ ps s, body? .desktop q (flags.withQuery q.flags) = some (ps, s) ∧
      listed q (flags.withQuery q.flags) s = [] ∧ orderClause q false s = "" ∧
      ∀ p ∈ ps, .named "x" ∉ p.binds := by
  intro related q flags
  have hbody : body? .desktop q (flags.withQuery q.flags) =
      some ([.triple (.var .result) (.uri Vocabulary.Nie.relatedTo) (.uri ⟨"urn:contact:alice"⟩)], {}) :=
    rfl
  refine ⟨by decide +kernel, _, _, hbody, rfl, rfl, ?_⟩
  simp [binds, Node.variables]

end DesktopSearch.Sparql
