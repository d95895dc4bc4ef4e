import DesktopSearch.Ontology.Desktop
import DesktopSearch.Proofs.Sparql.Compilation
import DesktopSearch.Proofs.Sparql.Fresh
import DesktopSearch.Proofs.Sparql.Members
import DesktopSearch.Proofs.Sparql.Place
import DesktopSearch.Proofs.Sparql.Squeeze

/-!
# Fetched properties

The map of names of a query and its patterns are made from the same list of requests, one without the other.
They agree (`requests_fetched`) : a fetched property has its pattern among those of the query, directly or in
braces of its own, and its name among the columns. For the members of a conjunction keep their patterns on
the way from the whole term (`requestTerm_mem_readied`, `exists_of_mem_lowerAll`). In the forms that select
nothing optional properties are left out, and what is left out leaves no trace in the query.
-/

namespace DesktopSearch

open Sparql Sparql.Pattern

/-! ## Requests and the term of a query -/

namespace Term.Gathered

variable {P : Term → Prop} (h : Gathered P)

include h

theorem of_addRequest {counting : Bool} {t : Term} {r : RequestProperty} {i : Nat}
    (hP : P (addRequest counting t (r, i))) :
    P t ∨ (r.optional && counting) = false ∧ P (fetch r.property (Query.requestName i)) := by
  rw [addRequest_eq] at hP
  split at hP
  · exact Or.inl hP
  · rename_i hfetched
    refine (h.of_join hP).imp_right fun hP => ⟨by simpa using hfetched, ?_⟩
    rw [requestTerm] at hP
    split at hP
    · exact (h.optional _ _).1 hP
    · exact hP

/-- The whole term of a query has what the term has, or what is joined to it. -/
theorem of_wholeTerm {q : Query} {counting : Bool} (hP : P (wholeTerm q counting)) :
    P q.term ∨ P (modeFilter q.fileMode) ∨ P (folderFilter q) ∨
      ∃ r i, (r, i) ∈ q.requestProperties.zipIdx ∧ (r.optional && counting) = false ∧
        P (fetch r.property (Query.requestName i)) := by
  rw [wholeTerm] at hP
  generalize q.requestProperties.zipIdx = es at hP ⊢
  induction es using List.reverseRecOn with
  | nil =>
    rw [List.foldl_nil] at hP
    split at hP
    · obtain ⟨t, ht, hP⟩ := (h.group _ _ _).1 hP
      simp only [List.mem_cons, List.not_mem_nil, or_false] at ht
      rcases ht with rfl | rfl | rfl
      · exact Or.inl hP
      · exact Or.inr (Or.inl hP)
      · exact Or.inr (Or.inr (Or.inl hP))
    · exact Or.inl hP
  | append_singleton es e ih =>
    obtain ⟨r, i⟩ := e
    rw [List.foldl_append, List.foldl_cons, List.foldl_nil] at hP
    rcases h.of_addRequest hP with hP | ⟨hfetched, hP⟩
    · refine (ih hP).imp_right (Or.imp_right (Or.imp_right ?_))
      rintro ⟨r', i', hmem, hr⟩
      exact ⟨r', i', List.mem_append_left _ hmem, hr⟩
    · exact Or.inr (Or.inr (Or.inr ⟨r, i, List.mem_append_right _ List.mem_cons_self, hfetched, hP⟩))

end Term.Gathered

namespace Sparql

variable {o : Ontology} {q : Query} {f : Flags} {ps : List Pattern} {s : Lowering}

theorem comparisons_modeFilter (mode : FileMode) : (modeFilter mode).comparisons = [] := by
  cases mode <;> rfl

/-- Comparisons of the whole term that are named come from the term of the query, or fetch a property. -/
theorem variableName_of_wholeTerm {counting : Bool} {c : Comparison} {name : String}
    (hc : c ∈ (wholeTerm q counting).comparisons) (hname : c.variableName = some name) :
    (∃ c ∈ q.term.comparisons, c.variableName = some name) ∨
      ∃ r i, (r, i) ∈ q.requestProperties.zipIdx ∧ (r.optional && counting) = false ∧
        name = Query.requestName i := by
  have hplace (p : String) : c ∉ (placeMatches p).comparisons := by
    intro hc
    obtain rfl := List.mem_singleton.1 hc
    contradiction
  rcases (Term.gathered_comparison c).of_wholeTerm hc with hc | hc | hc | ⟨r, i, hmem, hfetched, hc⟩
  · exact Or.inl ⟨c, hc, hname⟩
  · rw [comparisons_modeFilter] at hc
    contradiction
  · rw [folderFilter] at hc
    rcases (Term.gathered_comparison c).of_join hc with hc | hc
    · split at hc
      · contradiction
      · exact absurd hc (hplace _)
    · split at hc
      · contradiction
      · exact absurd hc (hplace _)
  · obtain rfl := List.mem_singleton.1 hc
    exact Or.inr ⟨r, i, hmem, hfetched, (Option.some.inj hname).symm⟩

/-! ## Fetching -/

/-- The pattern that fetches a property under a name. -/
def fetched (property : Uri) (name : String) : Pattern :=
  .triple (.var .result) (.uri property) (.var (.named name))

/-- The pattern of a request, in braces of its own if it is optional. -/
def requestPattern (r : RequestProperty) (name : String) : Pattern :=
  if r.optional then .optional [fetched r.property name] else fetched r.property name

/-- What has been decided when one more column is selected. -/
def Lowering.select (s : Lowering) (c : Column) : Lowering :=
  if s.columns.any (·.text == c.text) then s else { s with columns := s.columns ++ [c] }

theorem text_mem_select (s : Lowering) (c : Column) :
    c.text ∈ (s.select c).columns.map Column.text := by
  rw [Lowering.select]
  split
  · rename_i hany
    obtain ⟨d, hd, htext⟩ := List.any_eq_true.1 hany
    exact List.mem_map.2 ⟨d, hd, beq_iff_eq.1 htext⟩
  · exact List.mem_map.2 ⟨c, List.mem_append_right _ List.mem_cons_self, rfl⟩

theorem lower_fetch (x : Setting) (property : Uri) (name : String) (s : Lowering) :
    lower x (fetch property name) .result s = some ([fetched property name],
      Lowering.select { s with scope := (property, .named name) :: s.scope }
        (.value (.named name))) := rfl

/-- A request is lowered to its pattern, and its name is selected. -/
theorem lower_requestTerm (x : Setting) (r : RequestProperty) (name : String) (s : Lowering) :
    ∃ s', lower x (requestTerm r name) .result s = some ([requestPattern r name], s') ∧
      "?" ++ name ∈ s'.columns.map Column.text := by
  rw [requestTerm, requestPattern]
  split
  · refine ⟨_, bind_eq_some.2 ⟨_, _, inGroup_eq_some.2 ⟨_, lower_fetch .., rfl⟩, rfl⟩, ?_⟩
    exact text_mem_select _ (.value (.named name))
  · exact ⟨_, lower_fetch .., text_mem_select _ (.value (.named name))⟩

/-! ## Members of a conjunction -/

/-- What a conjunction asks for is lowered somewhere, and what is selected or sorted by there stays so. -/
theorem exists_of_mem_lowerAll {x : Setting} {ts : List Term} {t : Term} (ht : t ∈ ts)
    (h : lowerAll x ts .result {} = some (ps, s)) :
    ∃ front own rest s₁ s₂, Material.all.Covers s₁ ∧ lower x t .result s₁ = some (own, s₂) ∧
      ps = front ++ (own ++ rest) ∧ s₂.Keeps s := by
  obtain ⟨before, after, rfl⟩ := List.append_of_mem ht
  obtain ⟨front, s₁, rs, hfront, hrest, rfl⟩ := Place.exists_of_append (fun ts => lowerAll x ts .result)
    (fun t => lower x t .result) rfl (fun _ _ => rfl) h
  obtain ⟨own, s₂, hown, hbehind⟩ := bind_eq_some.1 hrest
  obtain ⟨rest, s₃, hafter, hend⟩ := bind_eq_some.1 hbehind
  obtain ⟨rfl, rfl⟩ := pure_eq_some.1 hend
  have hmakes (ts : List Term) (n : Nat) : MakesPatterns .all n (lowerAll x ts .result) :=
    makes_lower_result x (.group .empty .and ts) n
  obtain ⟨-, hs₁, -⟩ := hmakes before 0 {} _ _ rfl Material.covers_start hfront
  obtain ⟨-, hs₂, -⟩ := makes_lower_result x t s₁.used _ _ _ rfl hs₁ hown
  obtain ⟨⟨vs, htrace⟩, -, -⟩ := hmakes after s₂.used _ _ _ rfl hs₂ hafter
  exact ⟨front, own, rest, s₁, s₂, hs₁, hown, rfl, htrace.keeps⟩

/-- What a query asks for is lowered as it is, unless it is changed while the query is prepared. -/
theorem mem_readied {ts : List Term} {t : Term} (ht : t ∈ ts)
    (hnegation : (refine o t).isNegation = false) : anchor (refine o t) ∈ readied o ts := by
  rw [readied, anchorMembers_eq]
  refine List.mem_append_left _ (List.mem_map.2 ⟨refine o t, mem_refineNamed.2 ⟨t, ht, rfl⟩, ?_⟩)
  rw [hnegation]
  rfl

theorem requestTerm_mem_readied {ts : List Term} {r : RequestProperty} {name : String}
    (h : requestTerm r name ∈ ts) : requestTerm r name ∈ readied o ts := by
  have hprepared : anchor (refine o (requestTerm r name)) = requestTerm r name ∧
      (refine o (requestTerm r name)).isNegation = false := by
    rw [requestTerm]
    split <;> exact ⟨rfl, rfl⟩
  exact hprepared.1 ▸ mem_readied h hprepared.2

/-- The pattern of a request is one of those of the query, and the name of the request is selected. -/
theorem requestPattern_mem {r : RequestProperty} {i : Nat} (h : body? o q f = some (ps, s))
    (hr : (r, i) ∈ q.requestProperties.zipIdx) (hfetched : (r.optional && f.counting) = false) :
    requestPattern r (Query.requestName i) ∈ ps ∧
      "?" ++ Query.requestName i ∈ s.columns.map Column.text := by
  obtain ⟨qs, s₁, hlower, -, rfl, hcolumns, -⟩ := exists_lower_of_body? h
  have hmem := requestTerm_mem_readied (o := o) (mem_share_wholeTerm hr hfetched)
  rw [lower_prepared _ (isValid_canonical_of_lower hlower)] at hlower
  obtain ⟨front, own, rest, s₂, s₃, -, hown, rfl, hkept⟩ := exists_of_mem_lowerAll hmem hlower
  obtain ⟨s₄, hrequest, hcolumn⟩ := lower_requestTerm (.ofQuery o q f) r (Query.requestName i) s₂
  obtain ⟨rfl, rfl⟩ := Prod.mk.inj (Option.some.inj (hown.symm.trans hrequest))
  constructor
  · exact List.mem_append_left _ (List.mem_append_right _ (List.mem_append_left _ List.mem_cons_self))
  · rw [hcolumns]
    exact (hkept.columns.map _).subset hcolumn

/-! ## Text -/

/-- The words that the pattern of a request starts with. -/
def requestWords (r : RequestProperty) (name : String) : List String :=
  (if r.optional then ["OPTIONAL", "\x7b"] else []) ++ ["?r", r.property.n3, "?" ++ name, "."]

theorem text_fetched (property : Uri) (name : String) : (fetched property name).text =
    "?r" ++ " " ++ property.n3 ++ " " ++ ("?" ++ name) ++ " . " := rfl

theorem text_optional_fetched (property : Uri) (name : String) :
    (Pattern.optional [fetched property name]).text =
      "OPTIONAL \x7b " ++ ((fetched property name).text ++ "") ++ " \x7d . " := rfl

/-- The pattern of a request is written with its words. -/
theorem words_infix_text (r : RequestProperty) (name : String) :
    (" ".intercalate (requestWords r name)).toList <:+: (requestPattern r name).text.toList := by
  have hend : " . " = " " ++ "." ++ " " := by simp
  have hopen : "OPTIONAL \x7b " = "OPTIONAL" ++ " " ++ "\x7b" ++ " " := by simp
  have htext : ∃ tail, (requestPattern r name).text = " ".intercalate (requestWords r name) ++ tail := by
    rw [requestPattern, requestWords]
    split
    · refine ⟨" " ++ " \x7d . ", ?_⟩
      simp only [text_optional_fetched, text_fetched, hopen, hend, String.append_assoc,
        String.empty_append, List.cons_append, List.nil_append, String.intercalate_singleton,
        String.intercalate_cons_of_ne_nil, ne_eq, List.cons_ne_nil, not_false_eq_true]
    · refine ⟨" ", ?_⟩
      simp only [text_fetched, hend, String.append_assoc, List.nil_append,
        String.intercalate_singleton, String.intercalate_cons_of_ne_nil, ne_eq, List.cons_ne_nil,
        not_false_eq_true]
  obtain ⟨tail, htext⟩ := htext
  rw [htext, String.toList_append]
  exact (List.prefix_append _ _).isInfix

theorem isWord_requestWords {r : RequestProperty}
    (h : ∀ c ∈ r.property.text.toList, Text.isBlank c = false ∧ c ≠ '"') (i : Nat) :
    ∀ w ∈ requestWords r (Query.requestName i), IsWord w.toList := by
  have hconstant : ∀ w ∈ ["OPTIONAL", "\x7b", "?r", "."], IsWord w.toList := by
    simp only [List.forall_mem_cons]
    refine ⟨?_, ?_, ?_, ?_, by simp⟩ <;> exact isWord_of_all (by decide) (by decide)
  have hproperty : IsWord r.property.n3.toList := by
    have hopen : IsWord ['<'] := isWord_of_all (by decide) (by decide)
    have hclose : IsWord ['>'] := isWord_of_all (by decide) (by decide)
    simpa [Uri.n3] using (hopen.append h).append hclose.2
  have hname : IsWord ("?" ++ Query.requestName i).toList := by
    have hopen : IsWord "?reqProp".toList := isWord_of_all (by decide) (by decide)
    have hdigits : ∀ c ∈ (toString (i + 1)).toList, Text.isBlank c = false ∧ c ≠ '"' := by
      intro c hc
      have hdigit := Text.isDigit_of_mem_toString hc
      refine ⟨Text.isBlank_of_isDigit hdigit, ?_⟩
      rintro rfl
      exact absurd hdigit (by decide)
    simpa [Query.requestName] using hopen.append hdigits
  intro w hw
  rcases List.mem_append.1 hw with hw | hw
  · split at hw
    · exact hconstant w (List.mem_append_left ["?r", "."] hw)
    · contradiction
  · simp only [List.mem_cons, List.not_mem_nil, or_false] at hw
    rcases hw with rfl | rfl | rfl | rfl
    · exact hconstant "?r" (by simp)
    · exact hproperty
    · exact hname
    · exact hconstant "." (by simp)

/-- A selected column is listed, in a form that lists columns. -/
theorem exists_columns {t : String} (ht : t ∈ s.columns.map Column.text)
    (hform : f.ask = false ∨ f.count = true) : ∃ front columns back, assemble q f ps s =
      front ++ "select distinct ?r " ++ " ".intercalate columns ++ " " ++ whereText ps ++ back ∧
        t ∈ columns := by
  have hselected : t ∈ selected (q.scoring && !f.counting) s := List.mem_append_left _ ht
  have hcounted : "select count(*) as ?cnt where \x7b \x7b select distinct ?r " =
      "select count(*) as ?cnt where \x7b \x7b " ++ "select distinct ?r " := by simp
  cases hcount : f.count with
  | true =>
    rw [assemble]
    dsimp only
    rw [hcount, if_pos rfl, if_neg (by simpa using List.ne_nil_of_mem hselected), hcounted]
    exact ⟨_, _, _, rfl, hselected⟩
  | false =>
    have hask : f.ask = false := by simpa [hcount] using hform
    refine ⟨"", listed q f s, orderClause q (q.scoring && !f.counting) s ++ pageClause q, ?_,
      List.mem_append_left _ hselected⟩
    rw [assemble_selection hask hcount, String.empty_append, String.append_assoc]

/-! ## Names -/

theorem requestName_injective : Function.Injective Query.requestName := by
  intro i j h
  rw [Query.requestName, Query.requestName, String.append_right_inj] at h
  have hdigits := congrArg (fun s => Text.digitsValue s.toList) h
  simp only [Text.digitsValue_toString] at hdigits
  exact Nat.succ.inj hdigits

/-- The map of names tells for every request what it fetches. -/
theorem lookup_requestMap {r : RequestProperty} {i : Nat} (h : (r, i) ∈ q.requestProperties.zipIdx) :
    q.requestMap.lookup (Query.requestName i) = some r.property := by
  obtain ⟨front, rest, hsplit⟩ := List.append_of_mem h
  have hnodup : (q.requestProperties.zipIdx.map Prod.snd).Nodup := by
    rw [List.zipIdx_map_snd]
    exact List.nodup_range' 1
  rw [hsplit, List.map_append, List.map_cons, List.nodup_append] at hnodup
  rw [Query.requestMap, hsplit, List.map_append, List.map_cons, List.lookup_eq_some_iff]
  refine ⟨_, _, rfl, fun e he => ?_⟩
  obtain ⟨⟨r', j⟩, hj, rfl⟩ := List.mem_map.1 he
  rw [bne_iff_ne]
  intro hname
  obtain rfl := requestName_injective hname
  exact hnodup.2.2 i (List.mem_map.2 ⟨_, hj, rfl⟩) i List.mem_cons_self rfl

/-- A property that is left out is mentioned only if the term of the query has a comparison of its name. -/
theorem not_mentions_of_leftOut {r : RequestProperty} {i : Nat} (h : body? o q f = some (ps, s))
    (hr : (r, i) ∈ q.requestProperties.zipIdx) (hleft : (r.optional && f.counting) = true)
    (hterm : ∀ c ∈ q.term.comparisons, c.variableName ≠ some (Query.requestName i)) :
    ¬ Mentions ps s (.named (Query.requestName i)) := by
  let m : Material := ⟨fun name => (∃ c ∈ q.term.comparisons, c.variableName = some name) ∨
    ∃ r i, (r, i) ∈ q.requestProperties.zipIdx ∧ (r.optional && f.counting) = false ∧
      name = Query.requestName i, fun _ => True⟩
  have hgives : m.Gives (prepared o q f.counting) := by
    refine ⟨fun c hc name hname => ?_, fun _ _ _ => trivial⟩
    rcases (Term.gathered_comparison c).of_prepared hc with hc | hc
    · exact variableName_of_wholeTerm hc hname
    · obtain rfl := List.mem_singleton.1 hc
      contradiction
  obtain ⟨-, hcovers, hps⟩ :=
    makes_lowerQuery hgives {} ps s rfl Material.covers_start (lowerQuery_of_body? h)
  intro hmentions
  rcases hmentions.has hcovers hps with ⟨c, hc, hname⟩ | ⟨r', j, hr', hfetched, hname⟩
  · exact hterm c hc hname
  · obtain rfl := requestName_injective hname
    rw [List.mk_mem_zipIdx_iff_getElem?] at hr hr'
    obtain rfl := Option.some.inj (hr.symm.trans hr')
    rw [hleft] at hfetched
    contradiction

/-- The name of a request and its property, unless it is optional. -/
def required? (e : RequestProperty × Nat) : Option (String × Uri) :=
  if e.1.optional then none else some (Query.requestName e.2, e.1.property)

/-- The properties that are fetched in every form, with their names. -/
def required (q : Query) : List (String × Uri) := q.requestProperties.zipIdx.filterMap required?

theorem foldl_addRequest_true (es : List (RequestProperty × Nat)) (t : Term) :
    es.foldl (addRequest true) t =
      (es.filterMap required?).foldl (fun t e => t &&& fetch e.2 e.1) t := by
  induction es generalizing t with
  | nil => rfl
  | cons e es ih =>
    obtain ⟨⟨property, optional⟩, i⟩ := e
    rw [List.foldl_cons, ih]
    cases optional <;> rfl

/-- Where nothing is selected, a query is compiled to what its required properties make of it. -/
theorem compile_congr_required {rs : List RequestProperty} {flags : Flags}
    (h : required { q with requestProperties := rs } = required q)
    (hf : (flags.withQuery q.flags).counting = true) :
    compile o { q with requestProperties := rs } flags = compile o q flags := by
  have hwhole : wholeTerm { q with requestProperties := rs } true = wholeTerm q true := by
    rw [wholeTerm, wholeTerm, foldl_addRequest_true, foldl_addRequest_true]
    exact congrArg (List.foldl _ _) h
  have hbody : body? o { q with requestProperties := rs } (flags.withQuery q.flags) =
      body? o q (flags.withQuery q.flags) := by
    rw [body?, body?, prepared, prepared, hf, hwhole]
  have htext (ps : List Pattern) (s : Lowering) :
      assemble { q with requestProperties := rs } (flags.withQuery q.flags) ps s =
        assemble q (flags.withQuery q.flags) ps s := rfl
  rw [compile, compile]
  simp only [hbody, htext]

/-! ## The map of names and the query -/

/-- The map of names of a query that compiles tells what is fetched under which name. The pattern of a
request that is not left out is one of the outermost patterns, and it is written in the text of the query;
its name is among the columns, in the forms that list columns. A request that is left out is mentioned
nowhere, unless the term of the query uses its name; and where optional requests are left out, the text of a
query depends on the others only. -/
theorem requests_fetched (o : Ontology) (q : Query) (flags : Flags) (h : compile o q flags ≠ "") :
    let f := flags.withQuery q.flags
    ∃ ps s, body? o q f = some (ps, s) ∧
      compile o q flags = String.ofList (squeeze (assemble q f ps s).toList) ∧
      (∀ r i, (r, i) ∈ q.requestProperties.zipIdx →
        q.requestMap.lookup (Query.requestName i) = some r.property ∧
        ((r.optional && f.counting) = false →
          requestPattern r (Query.requestName i) ∈ ps ∧
          (f.ask = false ∨ f.count = true → ∃ front columns back, assemble q f ps s =
            front ++ "select distinct ?r " ++ " ".intercalate columns ++ " " ++ whereText ps ++ back ∧
              "?" ++ Query.requestName i ∈ columns) ∧
          ((∀ c ∈ r.property.text.toList, Text.isBlank c = false ∧ c ≠ '"') →
            (" ".intercalate (requestWords r (Query.requestName i))).toList <:+:
              (compile o q flags).toList)) ∧
        ((r.optional && f.counting) = true →
          (∀ c ∈ q.term.comparisons, c.variableName ≠ some (Query.requestName i)) →
          ¬ Mentions ps s (.named (Query.requestName i)))) ∧
      (f.counting = true → ∀ rs, required { q with requestProperties := rs } = required q →
        compile o { q with requestProperties := rs } flags = compile o q flags) := by
  intro f
  have hcompile : ∃ ps s, body? o q f = some (ps, s) ∧
      compile o q flags = String.ofList (squeeze (assemble q f ps s).toList) := by
    rw [compile] at h ⊢
    cases hbody : body? o q (flags.withQuery q.flags) with
    | none =>
      rw [hbody] at h
      contradiction
    | some body => exact ⟨body.1, body.2, rfl, rfl⟩
  obtain ⟨ps, s, hbody, htext⟩ := hcompile
  refine ⟨ps, s, hbody, htext, fun r i hr => ⟨lookup_requestMap hr, fun hfetched => ?_, fun hleft => ?_⟩,
    fun hcounting rs hrs => compile_congr_required hrs hcounting⟩
  · obtain ⟨hpattern, hcolumn⟩ := requestPattern_mem hbody hr hfetched
    refine ⟨hpattern, exists_columns hcolumn, fun hproperty => ?_⟩
    obtain ⟨front, rest, rfl⟩ := List.append_of_mem hpattern
    rw [htext, String.toList_ofList]
    refine infix_squeeze (isWord_requestWords hproperty i) ?_
    exact (words_infix_text r _).trans (text_infix_assemble .self)
  · exact not_mentions_of_leftOut hbody hr hleft

/-- Reports with their titles and, where there are any, their dates. When they are counted the dates are left
out. -/
theorem requests_fetched_reports :
    let q : Query :=
      { term := .allOf [.ofLiteral (.string "report"),
          .compare (some Vocabulary.Nie.title) (.ofLiteral (.string "annual")) .contains]
        requestProperties := [⟨Vocabulary.Nie.title, false⟩, ⟨Vocabulary.Nie.created, true⟩] }
    let title := fetched Vocabulary.Nie.title (Query.requestName 0)
    let created := fetched Vocabulary.Nie.created (Query.requestName 1)
    (compile .desktop q {} ≠ "" ∧ ∃ ps s, body? .desktop q (Flags.withQuery {} q.flags) = some (ps, s) ∧
      title ∈ ps ∧ .optional [created] ∈ ps) ∧
    (compile .desktop q { count := true } ≠ "" ∧
      ∃ ps s, body? .desktop q (Flags.withQuery { count := true } q.flags) = some (ps, s) ∧
        title ∈ ps ∧ ¬ Mentions ps s (.named (Query.requestName 1))) := by
  intro q title created
  have htitle : (⟨Vocabulary.Nie.title, false⟩, 0) ∈ q.requestProperties.zipIdx := List.mem_cons_self
  have hcreated : (⟨Vocabulary.Nie.created, true⟩, 1) ∈ q.requestProperties.zipIdx :=
    List.mem_cons_of_mem _ List.mem_cons_self
  have hlisted : compile .desktop q {} ≠ "" :=
    (Option.isSome_iff_exists.1 (by decide +kernel)).elim fun _ => compile_ne_empty
  have hcounted : compile .desktop q { count := true } ≠ "" :=
    (Option.isSome_iff_exists.1 (by decide +kernel)).elim fun _ => compile_ne_empty
  obtain ⟨ps, s, hbody, -, hrequests, -⟩ := requests_fetched .desktop q {} hlisted
  obtain ⟨qs, r, hcount, -, hcountRequests, -⟩ := requests_fetched .desktop q { count := true } hcounted
  refine ⟨⟨hlisted, ps, s, hbody, ?_, ?_⟩, hcounted, qs, r, hcount, ?_, ?_⟩
  · exact ((hrequests _ _ htitle).2.1 rfl).1
  · exact ((hrequests _ _ hcreated).2.1 rfl).1
  · exact ((hcountRequests _ _ htitle).2.1 rfl).1
  · refine (hcountRequests _ _ hcreated).2.2 rfl fun c hc => ?_
    obtain rfl := List.mem_singleton.1 hc
    simp

end Sparql

end DesktopSearch
