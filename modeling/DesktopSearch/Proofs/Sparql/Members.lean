import DesktopSearch.Proofs.Sparql.Lowering
import DesktopSearch.Proofs.Sparql.Optimized
import DesktopSearch.Proofs.Sparql.Scope

/-!
# What is asked of a result

The whole term of a query asks for several things that all hold of the result, and they are lowered one
behind the other (`lower_prepared`). Joining one more term to the whole term adds what the term asks for, and
nothing that was there goes (`share_join`), so every fetched property is asked for (`mem_share_wholeTerm`).
Members that are named are lowered first, and a fetched property that is asked for last behind them
(`readied_append_fetch`).
-/

namespace DesktopSearch

namespace Term

/-! ## Joined terms -/

/-- What a term puts into a group has no spans. -/
theorem bare_of_mem_share {k : Connective} {t u : Term} (hu : u ∈ share k t) : u.bare = u := by
  rw [share, canonical, spread_bare] at hu
  obtain ⟨w, -, rfl⟩ := List.mem_map.1 hu
  exact bare_bare w

/-- Of terms without spans only repetitions are left out. -/
theorem mem_distinct_iff {ts : List Term} (h : ∀ t ∈ ts, t.bare = t) {u : Term} :
    u ∈ distinct ts ↔ u ∈ ts := by
  refine ⟨mem_of_mem_distinct, fun hu => ?_⟩
  have hsame : (distinct ts).any (·.same u) = true :=
    any_same_foldl_pushNew (Or.inr (List.any_eq_true.2 ⟨u, hu, same_refl u⟩))
  obtain ⟨t, ht, hsame⟩ := List.any_eq_true.1 hsame
  have hbare := same_iff_bare_eq.1 hsame
  rw [h t (mem_of_mem_distinct ht), h u hu] at hbare
  exact hbare ▸ ht

/-- A term puts nothing into a group twice. -/
theorem distinct_share (k : Connective) (t : Term) : distinct (share k t) = share k t := by
  rw [share]
  cases isNormal_canonical t with
  | inl hinvalid =>
    rw [spread_of_not_isValid k hinvalid]
    rfl
  | inr hproper =>
    cases hk : t.canonical.isGroup k with
    | false =>
      rw [spread_eq_singleton hproper.isValid hk]
      rfl
    | true =>
      generalize t.canonical = n at hproper hk
      cases hproper with
      | group s l ts two members flat hd =>
        obtain rfl : l = k := by simpa [isGroup] using hk
        rw [spread, if_pos rfl, distinct_eq_self hd]
      | _ => simp [isGroup] at hk

/-- A group of a kind asks for what its members ask for. -/
theorem mem_share_group {s : Span} {k : Connective} {ts : List Term} {u : Term} :
    u ∈ share k (group s k ts) ↔ ∃ t ∈ ts, u ∈ share k t := by
  rw [share_group, mem_distinct_iff, List.mem_flatMap]
  intro t ht
  obtain ⟨w, -, ht⟩ := List.mem_flatMap.1 ht
  exact bare_of_mem_share ht

theorem share_comparison (k : Connective) (s : Span) (c : Comparison) (t : Term) :
    share k (comparison s c t) = [comparison .empty c t.canonical] := by
  rw [share, canonical, optimize, bare]
  rfl

/-- A comparison that is the term, or a member of it if the term is a group of the kind, is asked for with its
value in normal form. -/
theorem comparison_mem_share {k : Connective} {s : Span} {c : Comparison} {t u : Term}
    (h : comparison s c t ∈ u.spread k) : comparison .empty c t.canonical ∈ share k u := by
  have hself : comparison .empty c t.canonical ∈ share k (comparison s c t) := by
    rw [share_comparison]
    exact List.mem_singleton_self _
  cases u with
  | invalid r => simp [spread] at h
  | group r l ts =>
    rw [spread] at h
    split at h
    · rename_i hl
      subst hl
      exact mem_share_group.2 ⟨_, h, hself⟩
    · exact absurd (List.mem_singleton.1 h) (by simp)
  | _ =>
    rw [← List.mem_singleton.1 h]
    exact hself

theorem share_join (k : Connective) (a b : Term) :
    share k (join k a b) = distinct (share k a ++ share k b) := by
  have hgroup : share k (group .empty k [a, b]) = distinct (share k a ++ share k b) := by
    rw [share_group, List.flatMap_cons, List.flatMap_singleton]
  rw [← hgroup, share, canonical_join, share]

theorem mem_share_join {k : Connective} {a b u : Term} :
    u ∈ share k (join k a b) ↔ u ∈ share k a ∨ u ∈ share k b := by
  rw [share_join, mem_distinct_iff, List.mem_append]
  exact List.forall_mem_append.2 ⟨fun _ => bare_of_mem_share, fun _ => bare_of_mem_share⟩

end Term

namespace Sparql

open Term

variable {o : Ontology} {q : Query}

/-! ## Fetched properties -/

/-- The term that a request adds to a query. -/
def requestTerm (r : RequestProperty) (name : String) : Term :=
  if r.optional then .optional .empty (fetch r.property name) else fetch r.property name

theorem share_requestTerm (r : RequestProperty) (name : String) :
    share .and (requestTerm r name) = [requestTerm r name] := by
  rw [requestTerm]
  split <;> rfl

theorem addRequest_eq (counting : Bool) (t : Term) (r : RequestProperty) (i : Nat) :
    addRequest counting t (r, i) =
      if r.optional && counting then t else t &&& requestTerm r (Query.requestName i) := by
  rw [addRequest, requestTerm]
  cases r.optional <;> cases counting <;> rfl

theorem mem_share_addRequest {counting : Bool} {t u : Term} {e : RequestProperty × Nat}
    (hu : u ∈ share .and t) : u ∈ share .and (addRequest counting t e) := by
  rw [addRequest_eq]
  split
  · exact hu
  · exact mem_share_join.2 (Or.inl hu)

theorem mem_share_foldl_addRequest {counting : Bool} {es : List (RequestProperty × Nat)} {t u : Term}
    (hu : u ∈ share .and t) : u ∈ share .and (es.foldl (addRequest counting) t) :=
  List.foldlRecOn (motive := (u ∈ share .and ·)) es _ hu fun _ ht _ _ => mem_share_addRequest ht

theorem zipIdx_addRequestProperty (q : Query) (r : RequestProperty) :
    (q.addRequestProperty r).requestProperties.zipIdx =
      q.requestProperties.zipIdx ++ [(r, q.requestProperties.length)] := by
  rw [Query.addRequestProperty, List.zipIdx_append, List.zipIdx_singleton, Nat.zero_add]

theorem mem_zipIdx_addRequestProperty (q : Query) (r : RequestProperty) :
    (r, q.requestProperties.length) ∈ (q.addRequestProperty r).requestProperties.zipIdx := by
  rw [zipIdx_addRequestProperty]
  exact List.mem_append_right _ List.mem_cons_self

/-- The whole term asks for all that the term of the query asks for. -/
theorem mem_share_wholeTerm_of_mem {counting : Bool} {u : Term} (hu : u ∈ share .and q.term) :
    u ∈ share .and (wholeTerm q counting) := by
  refine mem_share_foldl_addRequest ?_
  split
  · exact mem_share_group.2 ⟨q.term, List.mem_cons_self, hu⟩
  · exact hu

/-- The whole term asks for every property that is fetched. -/
theorem mem_share_wholeTerm {counting : Bool} {r : RequestProperty} {i : Nat}
    (h : (r, i) ∈ q.requestProperties.zipIdx) (hfetched : (r.optional && counting) = false) :
    requestTerm r (Query.requestName i) ∈ share .and (wholeTerm q counting) := by
  obtain ⟨front, rest, hsplit⟩ := List.append_of_mem h
  rw [wholeTerm, hsplit, List.foldl_append, List.foldl_cons]
  refine mem_share_foldl_addRequest ?_
  rw [addRequest_eq, hfetched, if_neg Bool.false_ne_true]
  refine mem_share_join.2 (Or.inr ?_)
  rw [share_requestTerm]
  exact List.mem_singleton_self _

/-- A required property is asked for behind everything else, unless it is asked for already. -/
theorem share_wholeTerm_addRequestProperty (q : Query) (counting : Bool) (p : Uri) :
    share .and (wholeTerm (q.addRequestProperty ⟨p, false⟩) counting) =
      pushNew (share .and (wholeTerm q counting))
        (fetch p (Query.requestName q.requestProperties.length)) := by
  rw [wholeTerm, zipIdx_addRequestProperty, List.foldl_append, List.foldl_cons, List.foldl_nil]
  change share .and (addRequest counting (wholeTerm q counting) _) = _
  rw [addRequest_eq, Bool.false_and, if_neg Bool.false_ne_true]
  change share .and (join .and _ _) = _
  rw [share_join, share_requestTerm, distinct, List.foldl_append]
  change pushNew (distinct _) _ = _
  rw [distinct_share]
  rfl

/-! ## Lowering the members -/

/-- The members of a conjunction in the form and the order in which they are lowered. -/
def readied (o : Ontology) (ts : List Term) : List Term :=
  let refined := refineWhere o isNamed ts ++ refineWhere o (!isNamed ·) ts
  anchorMembers refined ++
    if refined.any isNegation && !refined.any isAnchor then [typeAnchor] else []

/-- Those of the members that satisfy `p`, in the form in which they are lowered. -/
def readiedWhere (o : Ontology) (p : Term → Bool) (ts : List Term) : List Term :=
  anchorMembers (refineWhere o p ts)

/-- Named members are lowered first, and the anchor of negations last, if there is any. -/
theorem exists_readied_eq (o : Ontology) (ts : List Term) :
    ∃ behind, (behind = [] ∨ behind = [typeAnchor]) ∧
      readied o ts = readiedWhere o isNamed ts ++ (readiedWhere o (!isNamed ·) ts ++ behind) := by
  rw [readied, anchorMembers_append]
  split
  · exact ⟨[typeAnchor], Or.inr rfl, List.append_assoc ..⟩
  · exact ⟨[], Or.inl rfl, List.append_assoc ..⟩

/-- One more fetched property is lowered behind the members that are named, and no anchor is needed then. -/
theorem readied_append_fetch (ts : List Term) (p : Uri) (name : String) :
    readied o (ts ++ [fetch p name]) =
      readiedWhere o isNamed ts ++ fetch p name :: readiedWhere o (!isNamed ·) ts := by
  have hnamed : refineWhere o isNamed (ts ++ [fetch p name]) =
      refineWhere o isNamed ts ++ [fetch p name] := by
    rw [refineWhere_eq, refineWhere_eq, List.filter_append, List.map_append]
    rfl
  have hothers : refineWhere o (!isNamed ·) (ts ++ [fetch p name]) =
      refineWhere o (!isNamed ·) ts := by
    rw [refineWhere_eq, refineWhere_eq, List.filter_append, List.map_append]
    exact List.append_nil _
  have hany : (refineWhere o isNamed ts ++ [fetch p name] ++
      refineWhere o (!isNamed ·) ts).any isAnchor = true :=
    List.any_eq_true.2 ⟨fetch p name, by simp, rfl⟩
  rw [readied, hnamed, hothers, hany, Bool.not_true, Bool.and_false, if_neg Bool.false_ne_true,
    List.append_nil, anchorMembers_append, anchorMembers_append, List.append_assoc]
  rfl

theorem readied_singleton (t : Term) : readied o [t] =
    if (refine o t).isNegation then [refine o t, typeAnchor] else [anchor (refine o t)] := by
  have hrefined : refineWhere o isNamed [t] ++ refineWhere o (!isNamed ·) [t] = [refine o t] := by
    rw [refineWhere_eq, refineWhere_eq]
    cases hnamed : isNamed t <;> simp [hnamed]
  rw [readied, hrefined]
  cases hnegation : (refine o t).isNegation with
  | false => simp [anchorMembers, hnegation]
  | true =>
    cases ht : refine o t with
    | negation s u => rfl
    | _ => simp [ht, isNegation] at hnegation

theorem lowerAll_append (x : Setting) (ts us : List Term) (v : Variable) :
    lowerAll x (ts ++ us) v = do
      let ps ← lowerAll x ts v
      let qs ← lowerAll x us v
      return ps ++ qs := by
  induction ts with
  | nil => simp [lowerAll]
  | cons t ts ih =>
    rw [List.cons_append, lowerAll, ih, lowerAll]
    simp only [bind_assoc, pure_bind, List.append_assoc]

theorem lowerAll_singleton (x : Setting) (t : Term) (v : Variable) :
    lowerAll x [t] v = lower x t v := by
  rw [lowerAll]
  simp [lowerAll]

/-- What is prepared of a term is the group of what it asks for, or all that it asks for. -/
theorem anchor_refine_cases {t : Term} (h : t.isValid = true) :
    anchor (refine o t) = .group .empty .and (readied o (spread .and t)) ∨
      readied o (spread .and t) = [anchor (refine o t)] := by
  cases hgroup : t.isGroup .and with
  | true =>
    cases t with
    | group s k ts =>
      obtain rfl : k = .and := by simpa [isGroup] using hgroup
      exact Or.inl rfl
    | _ => simp [isGroup] at hgroup
  | false =>
    rw [spread_eq_singleton h hgroup, readied_singleton]
    split
    · rename_i hnegation
      cases ht : refine o t with
      | negation s u => exact Or.inl rfl
      | _ => simp [ht, isNegation] at hnegation
    · exact Or.inr rfl

/-- A term that says anything is lowered as what it asks for, one behind the other. -/
theorem lower_anchor_refine (x : Setting) {t : Term} (h : t.isValid = true) (v : Variable) :
    lower x (anchor (refine o t)) v = lowerAll x (readied o (spread .and t)) v := by
  rcases anchor_refine_cases (o := o) h with h | h
  · rw [h, lower]
  · rw [h, lowerAll_singleton]

theorem isValid_canonical_of_share_ne_nil {t : Term} (h : share .and t ≠ []) :
    t.canonical.isValid = true := by
  by_contra hinvalid
  exact h (spread_of_not_isValid .and (by simpa using hinvalid))

/-- What a query asks for is lowered one behind the other, if it asks for anything. -/
theorem lower_prepared (x : Setting) {counting : Bool}
    (h : (wholeTerm q counting).canonical.isValid = true) (v : Variable) :
    lower x (prepared o q counting) v =
      lowerAll x (readied o (share .and (wholeTerm q counting))) v := by
  rw [← lower_bare, bare_prepared, lower_anchor_refine x h, share]

/-- With a required property the query is lowered as what it asked for before and the property. -/
theorem lower_prepared_addRequestProperty (x : Setting) (q : Query) (counting : Bool) (p : Uri)
    (v : Variable) : lower x (prepared o (q.addRequestProperty ⟨p, false⟩) counting) v =
      lowerAll x (readied o (pushNew (share .and (wholeTerm q counting))
        (fetch p (Query.requestName q.requestProperties.length)))) v := by
  have hasked : requestTerm ⟨p, false⟩ (Query.requestName q.requestProperties.length) ∈
      share .and (wholeTerm (q.addRequestProperty ⟨p, false⟩) counting) :=
    mem_share_wholeTerm (mem_zipIdx_addRequestProperty q ⟨p, false⟩) rfl
  rw [lower_prepared x (isValid_canonical_of_share_ne_nil (List.ne_nil_of_mem hasked)),
    share_wholeTerm_addRequestProperty]

/-- A query that is expressed asks for something. -/
theorem isValid_canonical_of_lower {x : Setting} {counting : Bool} {v : Variable} {s : Lowering}
    {r : List Pattern × Lowering} (h : lower x (prepared o q counting) v s = some r) :
    (wholeTerm q counting).canonical.isValid = true := by
  rw [← lower_bare, bare_prepared] at h
  have hvalid := isValid_of_lower h
  cases ht : (wholeTerm q counting).canonical with
  | invalid r =>
    rw [ht] at hvalid
    exact hvalid
  | _ => rfl

end Sparql

end DesktopSearch
