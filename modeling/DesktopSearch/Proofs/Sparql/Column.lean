import DesktopSearch.Proofs.Sparql.Fetched
import DesktopSearch.Proofs.Sparql.Merging

/-!
# One more column

A query that is asked for one more property fetches it behind the members of its term that are named and in
front of all others. A property with several values is bound by that, to the variable of the column, and the
rest of the patterns is the same unless something looks the property up (`column_added`) : the values of
comparisons that do are merged into the column.
-/

namespace DesktopSearch.Sparql

open Sparql.Pattern Term

variable {o : Ontology} {q : Query} {f : Flags} {ps : List Pattern} {s : Lowering}

/-! ## Outermost comparisons -/

theorem outermost_anchor_refine_iff {t : Term} (h : t.isValid = true) {c : Comparison} {value : Term} :
    Outermost c value (anchor (refine o t)) ↔
      ∃ u ∈ readied o (spread .and t), Outermost c value u := by
  rcases anchor_refine_cases (o := o) h with ht | ht
  · rw [ht]
    exact ⟨fun | .member hu hc => ⟨_, hu, hc⟩, fun ⟨_, hu, hc⟩ => .member hu hc⟩
  · rw [ht]
    exact ⟨fun hc => ⟨_, List.mem_singleton_self _, hc⟩, fun ⟨_, hu, hc⟩ => List.mem_singleton.1 hu ▸ hc⟩

/-- Outermost in the prepared term stands what does so in something that is asked for. -/
theorem outermost_prepared_iff {counting : Bool}
    (h : (wholeTerm q counting).canonical.isValid = true) {c : Comparison} {value : Term} :
    Outermost c value (prepared o q counting).bare ↔
      ∃ t ∈ readied o (share .and (wholeTerm q counting)), Outermost c value t := by
  rw [bare_prepared, outermost_anchor_refine_iff h, share]

/-! ## Named members -/

/-- What stands outermost in a named member is the member. -/
theorem variableName_ne_none {ts : List Term} {t : Term} (ht : t ∈ readiedWhere o isNamed ts)
    {c : Comparison} {value : Term} (hc : Outermost c value t) : c.variableName ≠ none := by
  rw [readiedWhere, anchorMembers_eq, List.mem_map] at ht
  obtain ⟨u, hu, rfl⟩ := ht
  obtain ⟨u, -, hnamed, rfl⟩ := mem_refineWhere.1 hu
  cases u with
  | comparison s d other =>
    cases hc
    exact Option.isSome_iff_ne_none.1 hnamed
  | _ => simp [isNamed] at hnamed

theorem outermost_of_mem_readiedWhere {counting : Bool}
    (hvalid : (wholeTerm q counting).canonical.isValid = true) {t : Term}
    (ht : t ∈ readiedWhere o isNamed (share .and (wholeTerm q counting)) ++
      readiedWhere o (!isNamed ·) (share .and (wholeTerm q counting)))
    {c : Comparison} {value : Term} (hc : Outermost c value t) :
    Outermost c value (prepared o q counting).bare := by
  obtain ⟨behind, -, hreadied⟩ := exists_readied_eq o (share .and (wholeTerm q counting))
  refine (outermost_prepared_iff hvalid).2 ⟨t, ?_, hc⟩
  rw [hreadied, ← List.append_assoc]
  exact List.mem_append_left _ ht

theorem isLookedUp_of_others {x : Setting} {p : Uri} {counting : Bool}
    (hvalid : (wholeTerm q counting).canonical.isValid = true) (h : IsLookedUp x p
      (.group .empty .and (readiedWhere o (!isNamed ·) (share .and (wholeTerm q counting))))) :
    IsLookedUp x p (prepared o q counting).bare := by
  obtain ⟨t, ht, c, value, hc, hlooks⟩ := isLookedUp_and.1 h
  exact ⟨c, value, outermost_of_mem_readiedWhere hvalid (List.mem_append_right _ ht) hc, hlooks⟩

/-- Beside the anchor, the members without names are those that look up properties. -/
theorem isLookedUp_others {x : Setting} {p : Uri} {counting : Bool}
    (hvalid : (wholeTerm q counting).canonical.isValid = true) (hp : p ≠ Vocabulary.Rdf.type)
    (h : IsLookedUp x p (prepared o q counting).bare) : IsLookedUp x p
      (.group .empty .and (readiedWhere o (!isNamed ·) (share .and (wholeTerm q counting)))) := by
  obtain ⟨c, value, hc, hlooks⟩ := h
  obtain ⟨t, ht, hc⟩ := (outermost_prepared_iff hvalid).1 hc
  obtain ⟨behind, hbehind, hreadied⟩ := exists_readied_eq o (share .and (wholeTerm q counting))
  rw [hreadied, List.mem_append, List.mem_append] at ht
  rcases ht with ht | ht | ht
  · exact absurd hlooks.unnamed (variableName_ne_none ht hc)
  · exact ⟨c, value, .member ht hc, hlooks⟩
  · rcases hbehind with rfl | rfl
    · contradiction
    · obtain rfl := List.mem_singleton.1 ht
      cases hc
      exact absurd (Option.some.inj hlooks.property).symm hp

/-! ## Anchors -/

/-- The anchor of negations is a statement about the types of the result, if any. -/
theorem eq_of_lower_typeAnchor {x : Setting} {s' : Lowering}
    (h : lower x typeAnchor .result s = some (ps, s')) :
    ps = [] ∨ ∃ v, ps = [.triple (.var .result) (.uri Vocabulary.Rdf.type) (.var v)] := by
  obtain ⟨p, s₁, hp, h⟩ := bind_eq_some.1 h
  obtain ⟨⟨v, isFirst⟩, s₂, hv, h⟩ := bind_eq_some.1 h
  obtain ⟨rfl, rfl⟩ := pure_eq_some.1 hp
  cases isFirst with
  | false =>
    obtain ⟨rfl, rfl⟩ := pure_eq_some.1 h
    exact Or.inl rfl
  | true =>
    obtain ⟨rfl, rfl⟩ := pure_eq_some.1 h
    exact Or.inr ⟨v, rfl⟩

/-! ## Lowering with the column -/

/-- Comparisons that are named bind no other properties than theirs. -/
theorem boundTo_eq_none {x : Setting} {p : Uri} {ts : List Term}
    (hnamed : ∀ t ∈ ts, ∀ c value, Outermost c value t →
      c.variableName ≠ none ∧ c.property ≠ some p)
    (h : lowerAll x ts .result {} = some (ps, s)) : boundTo s.scope p = none := by
  have hmirrors : MirrorsPatterns id (fun g a _ => g = p → a = none) (lowerAll x ts .result)
      (lowerAll x ts .result) := by
    refine mirrors_lowerAll (r := id) fun t ht =>
      mirrors_lower (fun _ => rfl) t (fun c value hc _ => ⟨?_, ?_⟩) .result
    · intro g name hg _ hgp
      exact absurd (hgp ▸ hg) (hnamed t ht c value hc).2
    · intro g _ hname
      exact absurd hname (hnamed t ht c value hc).1
  obtain ⟨-, s', -, -, hbeside⟩ := hmirrors {} {} ps s ⟨fun _ => rfl, fun _ _ => rfl⟩ h
  exact hbeside.scope p rfl

/-- Selecting a column binds nothing and makes nothing up. -/
theorem select_same (s : Lowering) (c : Column) :
    (s.select c).used = s.used ∧ (s.select c).scope = s.scope := by
  rw [Lowering.select]
  split <;> exact ⟨rfl, rfl⟩

/-- Fetching a property binds it for the members behind. -/
theorem merging_fetch {asked : Prop} {p : Uri} (name : String) (hs : Material.all.Covers s)
    (hunbound : asked → boundTo s.scope p = none) :
    Merging asked p (.named name) [] s (Lowering.select
      { s with scope := (p, .named name) :: s.scope } (.value (.named name))) := by
  have hsame := select_same { s with scope := (p, .named name) :: s.scope } (.value (.named name))
  refine ⟨⟨fun k => ?_, fun g => ?_⟩, by simp, hs⟩
  · rw [renumbered_nil, hsame.1]
    rfl
  · rw [boundInSecond, hsame.2, boundTo_cons, renumbered_nil]
    by_cases hgp : g = p
    · rw [if_pos hgp, if_pos hgp.symm, hgp]
      exact fun hasked => ⟨hunbound hasked, rfl⟩
    · rw [if_neg hgp, if_neg (Ne.symm hgp), Option.map_id]
      rfl

/-- A fetched property between the members of a conjunction changes the patterns of those behind it only,
by merging. -/
theorem exists_lowerAll_fetch {x : Setting} {p : Uri} (name : String)
    {named others behind : List Term} (hp : x.ontology.isSingleValued p = false)
    (hnamed : ∀ t ∈ named, ∀ c value, Outermost c value t → c.variableName ≠ none)
    (hnames : IsLookedUp x p (.group .empty .and others) → ∀ t ∈ named ++ others, ∀ c value,
      Outermost c value t → c.property = some p → c.variableName = none)
    (h : lowerAll x (named ++ (others ++ behind)) .result {} = some (ps, s)) :
    ∃ front own anchor own' merged s₁ s', ps = front ++ (own ++ anchor) ∧
      lowerAll x behind .result s₁ = some (anchor, s) ∧
      lowerAll x (named ++ fetch p name :: others) .result {} =
        some (front ++ fetched p name :: own', s') ∧
      renameAll (renumbered (.named name) merged) front = front ∧
      Merged p (renumbered (.named name) merged) merged own own' ∧
      (merged ≠ [] ↔ IsLookedUp x p (.group .empty .and others)) := by
  rw [lowerAll_append] at h
  obtain ⟨front, s₀, hfront, h⟩ := bind_eq_some.1 h
  obtain ⟨rest, s₂, hrest, h⟩ := bind_eq_some.1 h
  obtain ⟨rfl, rfl⟩ := pure_eq_some.1 h
  rw [lowerAll_append] at hrest
  obtain ⟨own, s₁, hown, hrest⟩ := bind_eq_some.1 hrest
  obtain ⟨anchor, s₂, hanchor, hrest⟩ := bind_eq_some.1 hrest
  obtain ⟨rfl, rfl⟩ := pure_eq_some.1 hrest
  obtain ⟨-, hcovers, hfits⟩ := makes_lower_result x (.group .empty .and named) 0 _ _ _ rfl
    Material.covers_start hfront
  have hunbound (ha : IsLookedUp x p (.group .empty .and others)) : boundTo s₀.scope p = none :=
    boundTo_eq_none (fun t ht c value hc => ⟨hnamed t ht c value hc, fun hcp =>
      hnamed t ht c value hc (hnames ha t (List.mem_append_left _ ht) c value hc hcp)⟩) hfront
  have hmerges : Merges x _ p (.named name) (.group .empty .and others) :=
    merges_and fun t ht => merges_lower hp (fun hlooks => isLookedUp_and.2 ⟨t, ht, hlooks⟩)
      fun ha => hnames ha t (List.mem_append_right _ ht)
  obtain ⟨merged, own', s', hown', -, hmerged, hfull, hlt⟩ :=
    hmerges [] s₀ _ own s₁ (merging_fetch name hcovers hunbound) hown
  refine ⟨front, own, anchor, own', merged, s₁, s', rfl, hanchor, ?_, ?_, hmerged, hfull⟩
  · rw [lowerAll_append, lowerAll]
    exact bind_eq_some.2 ⟨front, s₀, hfront, bind_eq_some.2 ⟨_, s', bind_eq_some.2 ⟨_, _,
      lower_fetch .., bind_eq_some.2 ⟨own', s', hown', rfl⟩⟩, rfl⟩⟩
  · have hid : renameAll (renumbered (.named name) merged) front = renameAll id front :=
      renameAll_congr (hfits.mono fun a ha v hv => renumbered_of_has (ha.known v hv) hlt)
    rw [hid, renameAll_id]

/-! ## The patterns of the query -/

/-- Asked for a required property that may have several values, a query has the patterns that it had, with
the property fetched behind those of the members that are named, unless it was fetched already. What stands
in front is the same. The values of outermost comparisons that look the property up are merged into the
column, as long as no comparison names the property there; nothing else is changed behind, and nothing at
all if no comparison looks it up. An anchor of negations is left out, since the column is one. -/
theorem column_added {p : Uri} (hp : o.isSingleValued p = false) (h : body? o q f = some (ps, s))
    (hnames : IsLookedUp (.ofQuery o q f) p (prepared o q f.counting).bare →
      ∀ c value, Outermost c value (prepared o q f.counting).bare → c.property = some p →
        c.variableName = none) :
    let name := Query.requestName q.requestProperties.length
    ∃ ps' s', body? o (q.addRequestProperty ⟨p, false⟩) f = some (ps', s') ∧
      (ps' = ps ∧ fetched p name ∈ ps ∨ ∃ front own own' anchor merged m n,
        ps = front ++ (own ++ anchor) ++ restriction q f m ∧
        ps' = front ++ fetched p name :: own' ++ restriction q f n ∧
        (anchor = [] ∨
          ∃ v, anchor = [.triple (.var .result) (.uri Vocabulary.Rdf.type) (.var v)]) ∧
        renameAll (renumbered (.named name) merged) front = front ∧
        Merged p (renumbered (.named name) merged) merged own own' ∧
        (¬ IsLookedUp (.ofQuery o q f) p (prepared o q f.counting).bare → own' = own) ∧
        (IsLookedUp (.ofQuery o q f) p (prepared o q f.counting).bare → p ≠ Vocabulary.Rdf.type →
          merged ≠ [])) := by
  intro name
  obtain ⟨qs, s₁, hlower, hfull, rfl, -⟩ := exists_lower_of_body? h
  have hvalid := isValid_canonical_of_lower hlower
  have hlower' := congrFun
    (lower_prepared_addRequestProperty (o := o) (.ofQuery o q f) q f.counting p .result) {}
  rw [lower_prepared _ hvalid] at hlower
  cases hnew : (share .and (wholeTerm q f.counting)).any (·.same (fetch p name)) with
  | true =>
    rw [pushNew_of_any hnew, hlower] at hlower'
    obtain ⟨s', hs'⟩ := exists_body?_of_lower (q := q.addRequestProperty ⟨p, false⟩) hfull hlower'
    have hrequest := requestPattern_mem hs' (mem_zipIdx_addRequestProperty q ⟨p, false⟩) rfl
    exact ⟨_, s', hs', Or.inl ⟨rfl, hrequest.1⟩⟩
  | false =>
    rw [pushNew, hnew, if_neg Bool.false_ne_true, readied_append_fetch] at hlower'
    obtain ⟨behind, hbehind, hreadied⟩ := exists_readied_eq o (share .and (wholeTerm q f.counting))
    rw [hreadied] at hlower
    obtain ⟨front, own, anchor, own', merged, s₂, s', rfl, hanchor, hfetch, hsame, hmerged, hmore⟩ :=
      exists_lowerAll_fetch name hp (fun t ht c value hc => variableName_ne_none ht hc)
        (fun h t ht c value hc => hnames (isLookedUp_of_others hvalid h) c value
          (outermost_of_mem_readiedWhere hvalid ht hc)) hlower
    rw [hfetch] at hlower'
    obtain ⟨s'', hs''⟩ := exists_body?_of_lower (q := q.addRequestProperty ⟨p, false⟩)
      (List.append_ne_nil_of_right_ne_nil _ (List.cons_ne_nil _ _)) hlower'
    refine ⟨_, s'', hs'', Or.inr ⟨front, own, own', anchor, merged, _, _, rfl, rfl, ?_, hsame, hmerged,
      fun hquiet => ?_, fun h hp => hmore.2 (isLookedUp_others hvalid hp h)⟩⟩
    · rcases hbehind with rfl | rfl
      · obtain ⟨rfl, -⟩ := pure_eq_some.1 hanchor
        exact Or.inl rfl
      · rw [lowerAll_singleton] at hanchor
        exact eq_of_lower_typeAnchor hanchor
    · obtain rfl : merged = [] := by
        by_contra hne
        exact hquiet (isLookedUp_of_others hvalid (hmore.1 hne))
      exact hmerged.eq_of_nil

/-- What is tagged with both. -/
def taggedTwice (first second : String) : Query :=
  .ofTerm (.allOf [.compare (some Vocabulary.Nao.hasTag) (.ofLiteral (.string first)) .contains,
    .compare (some Vocabulary.Nao.hasTag) (.ofLiteral (.string second)) .contains])

/-- Values are merged into a column of tags. -/
theorem column_added_tags :
    let q := taggedTwice "work" "home"
    let f : Flags := { noResultRestrictions := true }
    let tags := Query.requestName 0
    ∃ ps s ps' s', body? .desktop q f = some (ps, s) ∧
      body? .desktop (q.addRequestProperty ⟨Vocabulary.Nao.hasTag, false⟩) f = some (ps', s') ∧
      ∃ front own own' anchor merged, merged ≠ [] ∧ ps = front ++ (own ++ anchor) ∧
        ps' = front ++ fetched Vocabulary.Nao.hasTag tags :: own' ∧
        Merged Vocabulary.Nao.hasTag (renumbered (.named tags) merged) merged own own' := by
  intro q f tags
  obtain ⟨ps, s, hbody, hnew⟩ : ∃ ps s, body? .desktop q f = some (ps, s) ∧
      fetched Vocabulary.Nao.hasTag tags ∉ ps := ⟨_, _, rfl, by simp [fetched, statement, f]⟩
  have hprepared : (prepared .desktop q f.counting).bare = q.term := rfl
  have hlooked : IsLookedUp (.ofQuery .desktop q f) Vocabulary.Nao.hasTag
      (prepared .desktop q f.counting).bare := by
    rw [hprepared]
    exact ⟨_, _, .member List.mem_cons_self (.self _), rfl, rfl, rfl, rfl⟩
  have hnames : ∀ c value, Outermost c value (prepared .desktop q f.counting).bare →
      c.property = some Vocabulary.Nao.hasTag → c.variableName = none := by
    rw [hprepared]
    intro c value hc _
    cases hc with
    | member mem h => rcases List.mem_pair.1 mem with rfl | rfl <;> cases h <;> rfl
  obtain ⟨ps', s', hbody', ⟨-, hmem⟩ | hps⟩ := column_added (by decide) hbody fun _ => hnames
  · exact absurd hmem hnew
  · obtain ⟨front, own, own', anchor, merged, m, n, rfl, rfl, -, -, hmerged, -, hmore⟩ := hps
    exact ⟨_, s, _, s', hbody, hbody', front, own, own', anchor, merged, hmore hlooked (by decide),
      List.append_nil _, List.append_nil _, hmerged⟩

/-- With a column of tags, what was tagged with both is searched for by one tag that is about both : neither
comparison has a statement about a tag of its own any more. -/
theorem column_merges_tags :
    let q := taggedTwice "work" "home"
    let flags : Flags := { noResultRestrictions := true }
    let tagged (v : Variable) : Pattern := .triple (.var .result) (.uri Vocabulary.Nao.hasTag) (.var v)
    let withTags := q.addRequestProperty ⟨Vocabulary.Nao.hasTag, false⟩
    Ontology.desktop.isSingleValued Vocabulary.Nao.hasTag = false ∧
    (∃ ps s, body? .desktop q (flags.withQuery q.flags) = some (ps, s) ∧
      tagged (.generated 1) ∈ ps ∧ tagged (.generated 4) ∈ ps) ∧
    (∃ ps s, body? .desktop withTags (flags.withQuery q.flags) = some (ps, s) ∧
      ∀ k, tagged (.generated k) ∉ ps) ∧
    compile .desktop withTags flags =
      "select distinct ?r ?reqProp1 where \x7b " ++
        "?r <http://www.semanticdesktop.org/ontologies/2007/08/15/nao#hasTag> ?reqProp1 . " ++
        "?reqProp1 ?v1 ?v2 . ?v2 bif:contains \"'work'\" . " ++
        "?reqProp1 ?v3 ?v4 . ?v4 bif:contains \"'home'\" . \x7d" := by
  intro q flags tagged withTags
  refine ⟨by decide, ⟨_, _, rfl, ?_, ?_⟩, ⟨_, _, rfl, fun k => ?_⟩, by decide +kernel⟩
  · exact List.mem_cons_self
  · exact List.mem_cons_of_mem _ (List.mem_cons_of_mem _ (List.mem_cons_of_mem _ List.mem_cons_self))
  · simp [tagged]

end DesktopSearch.Sparql
