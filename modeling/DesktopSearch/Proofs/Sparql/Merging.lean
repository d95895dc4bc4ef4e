import DesktopSearch.Proofs.Sparql.Material
import DesktopSearch.Proofs.Sparql.Renaming
import Mathlib.Data.Nat.Count

/-!
# Values merged into a bound variable

A property with several values is looked up in the scope like any other, though only a name ever binds it
there. Once it is bound, the comparisons that look it up (`LooksUp`) compare that variable and not values of
their own : the statements of their values go, the values become the variable, and the numbers of all
variables behind them move up (`renumbered`). The patterns are `Merged` in this way when a term is lowered
with the property bound instead of unbound (`merges_lower`). Without such comparisons nothing is merged, and
the patterns are the same (`Merged.eq_of_nil`).
-/

namespace DesktopSearch.Sparql

open Sparql.Pattern

/-! ## Renumbering -/

/-- The variables with these numbers become the given one, and the numbers behind them move up. -/
def renumbered (w : Variable) (merged : List Nat) : Variable → Variable
  | .generated k => if k ∈ merged then w else .generated (Nat.count (· ∉ merged) k)
  | v => v

section

variable {w : Variable} {merged more : List Nat} {k l : Nat}

theorem renumbered_nil (w : Variable) : renumbered w [] = id := by
  funext v
  cases v with
  | generated k => simp [renumbered]
  | _ => rfl

theorem renumbered_of_notMem (hk : k ∉ merged) :
    renumbered w merged (.generated k) = .generated (Nat.count (· ∉ merged) k) := if_neg hk

/-- Variables are not renamed when only later ones are merged. -/
theorem renumbered_of_lt (h : ∀ j ∈ merged, k < j) :
    renumbered w merged (.generated k) = .generated k := by
  rw [renumbered_of_notMem fun hk => Nat.lt_irrefl k (h k hk), Nat.count_of_forall]
  exact fun j hj hmem => Nat.lt_asymm hj (h j hmem)

/-- Numbers in front of all that are merged later count as before. -/
theorem count_append (h : ∀ j ∈ more, k ≤ j) :
    Nat.count (· ∉ merged ++ more) k = Nat.count (· ∉ merged) k := by
  rw [Nat.count_eq_card_filter_range, Nat.count_eq_card_filter_range]
  refine congrArg Finset.card (Finset.filter_congr fun j hj => ?_)
  rw [List.mem_append, or_iff_left]
  exact fun hmem => Nat.not_lt_of_le (h j hmem) (Finset.mem_range.1 hj)

/-- Behind all merged numbers every number counts. -/
theorem count_behind (h : ∀ j ∈ merged, j < k) (i : Nat) :
    Nat.count (· ∉ merged) (k + i) = Nat.count (· ∉ merged) k + i := by
  have hall : Nat.count (fun j => k + j ∉ merged) i = i :=
    Nat.count_of_forall fun j _ hmem => Nat.not_lt_of_le (Nat.le_add_right k j) (h _ hmem)
  rw [Nat.count_add, hall]

/-- Merging more variables changes nothing in front of them. -/
theorem renumbered_append (h : ∀ j ∈ more, k < j) :
    renumbered w (merged ++ more) (.generated k) = renumbered w merged (.generated k) := by
  have hmem : k ∈ merged ++ more ↔ k ∈ merged := by
    rw [List.mem_append, or_iff_left]
    exact fun hmem => Nat.lt_irrefl k (h k hmem)
  rw [renumbered, renumbered, count_append fun j hj => Nat.le_of_lt (h j hj)]
  simp only [hmem]

/-- When one more variable is merged, those behind it move up by one. -/
theorem renumbered_behind (h : ∀ j ∈ merged, j < k) (i : Nat) :
    renumbered w (merged ++ [k]) (.generated (k + 1 + i)) =
      renumbered w merged (.generated (k + i)) := by
  have hlt : ∀ j ∈ merged ++ [k], j < k + 1 := by
    rw [List.forall_mem_append, List.forall_mem_singleton]
    exact ⟨fun j hj => Nat.lt_succ_of_lt (h j hj), Nat.lt_succ_self k⟩
  have hk : k ∈ merged ++ [k] := List.mem_append_right _ (List.mem_singleton_self k)
  have hcount : Nat.count (· ∉ merged ++ [k]) (k + 1) = Nat.count (· ∉ merged) k := by
    rw [Nat.count_succ, if_neg (not_not.2 hk), Nat.add_zero, count_append]
    exact fun j hj => (List.mem_singleton.1 hj).ge
  rw [renumbered_of_notMem fun hmem => Nat.not_lt_of_le (Nat.le_add_right _ i) (hlt _ hmem),
    renumbered_of_notMem fun hmem => Nat.not_lt_of_le (Nat.le_add_right _ i) (h _ hmem),
    count_behind hlt, hcount, count_behind h]

end

/-! ## Merged patterns -/

/-- The patterns without the statements of the merged values, one for each number, and renamed. -/
inductive Merged (p : Uri) (r : Variable → Variable) :
    List Nat → List Pattern → List Pattern → Prop
  | nil : Merged p r [] [] []
  | kept {merged : List Nat} {ps qs : List Pattern} (a : Pattern) (rest : Merged p r merged ps qs) :
    Merged p r merged (a :: ps) (a.rename r :: qs)
  | left {merged : List Nat} {ps qs : List Pattern} {a : Pattern} {k : Nat}
    (states : a.States .result p (.generated k)) (rest : Merged p r merged ps qs) :
    Merged p r (k :: merged) (a :: ps) qs

section

variable {p : Uri} {r r' : Variable → Variable} {merged more : List Nat}
  {ps qs ps' qs' : List Pattern}

theorem merged_renameAll (p : Uri) (r : Variable → Variable) (ps : List Pattern) :
    Merged p r [] ps (renameAll r ps) := by
  induction ps with
  | nil => exact .nil
  | cons a ps ih => exact .kept a ih

theorem Merged.append (h : Merged p r merged ps qs) (h' : Merged p r more ps' qs') :
    Merged p r (merged ++ more) (ps ++ ps') (qs ++ qs') := by
  induction h with
  | nil => exact h'
  | kept a _ ih => exact .kept a ih
  | left states _ ih => exact .left states ih

/-- Patterns are merged alike under renamings that do the same to their variables. -/
theorem Merged.congr (h : Merged p r merged ps qs)
    (hr : EverywhereAll (fun a => ∀ v ∈ a.ownVariables, r v = r' v) ps) : Merged p r' merged ps qs := by
  induction h with
  | nil => exact .nil
  | kept a _ ih =>
    rw [rename_congr hr.1]
    exact .kept a (ih hr.2)
  | left states _ ih => exact .left states (ih hr.2)

/-- Without values to merge the patterns stay as they are. -/
theorem Merged.eq_of_nil {w : Variable} (h : Merged p (renumbered w []) [] ps qs) : qs = ps := by
  rw [renumbered_nil] at h
  generalize hnone : ([] : List Nat) = merged at h
  induction h with
  | nil => rfl
  | kept a _ ih => rw [rename_id, ih hnone]
  | left _ _ => contradiction

end

/-! ## Looking up a property -/

/-- The comparison looks up the variable of the property. -/
structure LooksUp (x : Setting) (p : Uri) (c : Comparison) (value : Term) : Prop where
  property : c.property = some p
  unnamed : c.variableName = none
  direct : c.inverted = false
  uses : usesVariable x c value = true

/-- A comparison that stands outermost in the term looks up the variable of the property. -/
def IsLookedUp (x : Setting) (p : Uri) (t : Term) : Prop :=
  ∃ c value, Outermost c value t ∧ LooksUp x p c value

theorem isLookedUp_comparison {x : Setting} {p : Uri} {s : Span} {c : Comparison} {value : Term} :
    IsLookedUp x p (.comparison s c value) ↔ LooksUp x p c value :=
  ⟨fun ⟨_, _, .self _, hc⟩ => hc, fun hc => ⟨c, value, .self s, hc⟩⟩

theorem isLookedUp_and {x : Setting} {p : Uri} {s : Span} {ts : List Term} :
    IsLookedUp x p (.group s .and ts) ↔ ∃ t ∈ ts, IsLookedUp x p t :=
  ⟨fun ⟨c, value, .member ht h, hc⟩ => ⟨_, ht, c, value, h, hc⟩,
    fun ⟨_, ht, c, value, h, hc⟩ => ⟨c, value, .member ht h, hc⟩⟩

section

variable {x : Setting} {o : Ontology} {p : Uri} {c : Comparison} {value : Term} {v w : Variable}
  {isFirst : Bool} {s s₁ : Lowering}

/-- Beside sorting by it, nothing is done with a variable without a name. -/
theorem exists_mainVariable (hname : c.variableName = none)
    (h : plainVariable o c s = some ((v, isFirst), s₁)) :
    ∃ s₂, mainVariable o c s = some ((v, isFirst), s₂) ∧ s₂.used = s₁.used ∧ s₂.scope = s₁.scope := by
  have hvalue : ∃ key, valueVariable o c s = some ((v, isFirst, key), s₁) := by
    rw [valueVariable, hname]
    exact ⟨_, bind_eq_some.2 ⟨_, _, h, rfl⟩⟩
  obtain ⟨key, hvalue⟩ := hvalue
  rw [mainVariable, bind_of_eq_some hvalue]
  dsimp only
  split
  · cases c.aggregate with
    | some a => exact ⟨_, rfl, rfl, rfl⟩
    | none =>
      cases key with
      | aggregate a w => exact ⟨_, rfl, rfl, rfl⟩
      | value w =>
        refine ⟨_, rfl, ?_⟩
        dsimp only
        split <;> exact ⟨rfl, rfl⟩
  · exact ⟨_, rfl, rfl, rfl⟩

theorem plainVariable_of_looksUp (hc : LooksUp x p c value) :
    plainVariable o c = propertyVariable o p := by
  rw [plainVariable, hc.property, hc.direct]

/-- A property that is not bound gets a variable of its own each time. -/
theorem exists_mainVariable_unbound (hc : LooksUp x p c value) (hp : o.isSingleValued p = false)
    (h : boundTo s.scope p = none) : ∃ s₁, mainVariable o c s =
      some ((.generated (s.used + 1), true), s₁) ∧ s₁.used = s.used + 1 ∧ s₁.scope = s.scope := by
  have hnew : plainVariable o c s =
      some ((.generated (s.used + 1), true), { s with used := s.used + 1 }) := by
    rw [plainVariable_of_looksUp hc]
    refine bind_eq_some.2 ⟨none, s, congrArg (fun a => some (a, s)) h, ?_⟩
    refine bind_eq_some.2 ⟨_, _, rfl, ?_⟩
    rw [hp]
    rfl
  exact exists_mainVariable hc.unnamed hnew

/-- A property that is bound has that variable. -/
theorem exists_mainVariable_bound (hc : LooksUp x p c value) (h : boundTo s.scope p = some w) :
    ∃ s₁, mainVariable o c s = some ((w, false), s₁) ∧ s₁.used = s.used ∧ s₁.scope = s.scope := by
  have hbound : plainVariable o c s = some ((w, false), s) := by
    rw [plainVariable_of_looksUp hc]
    exact bind_eq_some.2 ⟨some w, s, congrArg (fun a => some (a, s)) h, rfl⟩
  exact exists_mainVariable hc.unnamed hbound

/-- A comparison that looks up the property is lowered to the statement of its value, if that is new, and
what it says of the value. -/
theorem lower_of_looksUp (hc : LooksUp x p c value) (span : Span) (subject : Variable) :
    lower x (.comparison span c value) subject = (do
      let r ← mainVariable x.ontology c
      let ps ← sayingOf x c value (lower x value) r.1
      return headed r.2 (stating x c value (.uri p) subject r.1) ++ ps) := by
  rw [lower, lowerComparison_of_usesVariable hc.uses fun _ => hc.direct, hc.property, predicate,
    pure_bind]

theorem states_stating (hc : LooksUp x p c value) (v : Variable) :
    (stating x c value (.uri p) .result v).States .result p v := by
  have hstatement : (statement x c (.uri p) (.var .result) (.var v)).States .result p v := by
    rw [statement]
    split <;> exact ⟨rfl, rfl, rfl⟩
  rw [stating, resourceStatement, hc.direct, if_neg Bool.false_ne_true]
  split
  · exact ⟨rfl, rfl, rfl⟩
  · split <;> exact hstatement

end

/-! ## A run with the property bound -/

/-- Scopes match in all properties, but this one is bound in the second scope only, if `asked`. -/
def boundInSecond (asked : Prop) (p : Uri) (w : Variable) (r : Variable → Variable) : Matching :=
  fun g a b => if g = p then asked → a = none ∧ b = some w else b = a.map r

/-- The second run is where the first one is, with the property bound and values merged into its
variable. -/
structure Merging (asked : Prop) (p : Uri) (w : Variable) (merged : List Nat) (s s' : Lowering) : Prop
    extends Beside (renumbered w merged) (boundInSecond asked p w (renumbered w merged)) s s' where
  counted : ∀ j ∈ merged, j ≤ s.used
  covers : Material.all.Covers s

/-- The second run merges more values if the term looks up the property, and writes what merging makes of
the patterns of the first run. -/
def Merges (x : Setting) (asked : Prop) (p : Uri) (w : Variable) (t : Term) : Prop :=
  ∀ merged s s' ps s₁, Merging asked p w merged s s' → lower x t .result s = some (ps, s₁) →
    ∃ more ps' s₁', lower x t .result s' = some (ps', s₁') ∧ Merging asked p w (merged ++ more) s₁ s₁' ∧
      Merged p (renumbered w (merged ++ more)) more ps ps' ∧
      (more ≠ [] ↔ IsLookedUp x p t) ∧ ∀ j ∈ more, s.used < j

section

variable {asked : Prop} {p : Uri} {w v : Variable} {merged more : List Nat} {s s' : Lowering} {n : Nat}

/-- What has been made up before stays as it is when more values are merged. -/
theorem renumbered_append_of_has (hv : Material.all.Has n v) (h : ∀ j ∈ more, n < j) :
    renumbered w (merged ++ more) v = renumbered w merged v := by
  cases v with
  | generated k => exact renumbered_append fun j hj => Nat.lt_of_le_of_lt hv.2 (h j hj)
  | _ => rfl

theorem renumbered_of_has (hv : Material.all.Has n v) (h : ∀ j ∈ merged, n < j) :
    renumbered w merged v = v := by
  cases v with
  | generated k => exact renumbered_of_lt fun j hj => Nat.lt_of_le_of_lt hv.2 (h j hj)
  | _ => rfl

/-- The value of a comparison is merged before anything is said of it. -/
theorem Merging.beside_merged (h : Merging asked p w merged s s') {s₁ s₁' : Lowering}
    (hused : s₁.used = s.used + 1) (hscope : s₁.scope = s.scope) (hused' : s₁'.used = s'.used)
    (hscope' : s₁'.scope = s'.scope) :
    Beside (renumbered w (merged ++ [s.used + 1]))
      (boundInSecond asked p w (renumbered w (merged ++ [s.used + 1]))) s₁ s₁' where
  fresh k := by
    rw [hused, hused', ← h.fresh k]
    exact renumbered_behind (fun j hj => Nat.lt_succ_of_le (h.counted j hj)) k
  scope g := by
    have hg := h.scope g
    rw [hscope, hscope']
    unfold boundInSecond at hg ⊢
    split
    · rename_i hgp
      rwa [if_pos hgp] at hg
    · rename_i hgp
      rw [if_neg hgp] at hg
      rw [hg]
      refine Option.map_congr fun v hv => (renumbered_append_of_has (n := s.used) ?_ ?_).symm
      · obtain ⟨e, he, rfl⟩ := Option.map_eq_some_iff.1 hv
        exact h.covers.scope e (List.mem_of_find?_eq_some he)
      · exact fun j hj => (Nat.lt_succ_self _).trans_eq (List.mem_singleton.1 hj).symm

end

section

variable {x : Setting} {asked : Prop} {p : Uri} {name : String}

/-- A term that does not look up the property is lowered to renamed patterns. -/
theorem merges_of_not_isLookedUp {t : Term} (hquiet : ¬ IsLookedUp x p t)
    (hnames : asked → ∀ c value, Outermost c value t → c.property = some p → c.variableName = none) :
    Merges x asked p (.named name) t := by
  intro merged s s' ps s₁ hs hstep
  have hmirrors : MirrorsPatterns (renumbered (.named name) merged)
      (boundInSecond asked p (.named name) (renumbered (.named name) merged)) (lower x t .result)
      (lower x t .result) := by
    refine mirrors_lower (fun _ => rfl) t (fun c value hc huses => ⟨?_, ?_⟩) .result
    · intro g n hg hname
      unfold boundInSecond
      split
      · rename_i hgp
        intro hasked
        rw [hnames hasked c value hc (hgp ▸ hg)] at hname
        contradiction
      · rfl
    · intro g hg hname hdirect
      have hgp : g ≠ p := fun hgp => hquiet ⟨c, value, hc, hgp ▸ hg, hname, hdirect, huses⟩
      simp [boundInSecond, hgp]
  obtain ⟨ps', s₁', hs', hps, hbeside⟩ := hmirrors s s' ps s₁ hs.toBeside hstep
  obtain ⟨⟨vs, htrace⟩, hcovers, -⟩ := makes_lower_result x t _ s ps s₁ rfl hs.covers hstep
  refine ⟨[], ps', s₁', hs', ?_, ?_, by simpa using hquiet, by simp⟩
  · rw [List.append_nil]
    exact ⟨hbeside, fun j hj => (hs.counted j hj).trans htrace.used_le, hcovers⟩
  · rw [List.append_nil, hps]
    exact merged_renameAll ..

/-- A comparison that looks up the property has its own value merged. -/
theorem merges_of_looksUp {c : Comparison} {value : Term} (hp : x.ontology.isSingleValued p = false)
    (hc : LooksUp x p c value) (hasked : asked) (span : Span) :
    Merges x asked p (.named name) (.comparison span c value) := by
  intro merged s s' ps s₁ hs hstep
  have hscope := hs.scope p
  rw [boundInSecond, if_pos rfl] at hscope
  obtain ⟨hunbound, hbound⟩ := hscope hasked
  obtain ⟨s₂, hs₂, hused, hscope⟩ := exists_mainVariable_unbound hc hp hunbound
  obtain ⟨s₂', hs₂', hused', hscope'⟩ := exists_mainVariable_bound (o := x.ontology) hc hbound
  obtain ⟨⟨vs, htrace⟩, hcovers, hps⟩ := makes_lower_result x _ _ s ps s₁ rfl hs.covers hstep
  rw [lower_of_looksUp hc] at hstep ⊢
  obtain ⟨r, s₃, hr, hstep⟩ := bind_eq_some.1 hstep
  obtain ⟨rfl, rfl⟩ := Prod.mk.inj (Option.some.inj (hs₂.symm.trans hr))
  obtain ⟨qs, s₃, hqs, hstep⟩ := bind_eq_some.1 hstep
  obtain ⟨rfl, rfl⟩ := pure_eq_some.1 hstep
  have hstates := states_stating hc (.generated (s.used + 1))
  have hvalue := hps.1.self.known _ (binds_subset_ownVariables _ hstates.mem_binds)
  have hmerged : renumbered (.named name) (merged ++ [s.used + 1]) (.generated (s.used + 1)) =
      .named name := if_pos (List.mem_append_right _ (List.mem_singleton_self _))
  generalize hr : renumbered (.named name) (merged ++ [s.used + 1]) = r at hmerged
  have hnamed (n : String) : r (.named n) = .named n := hr ▸ rfl
  -- Both runs know a variable now, and what they say of it is renamed only.
  have hmirrors : MirrorsPatterns r (boundInSecond asked p (.named name) r)
      (sayingOf x c value (lower x value) (.generated (s.used + 1)))
      (sayingOf x c value (lower x value) (r (.generated (s.used + 1)))) :=
    mirrors_sayingOf
      (fun v => mirrors_lower hnamed value (fun c _ _ _ => suits_renamed hnamed c) v) _
  rw [hmerged] at hmirrors
  obtain ⟨qs', s₃', hqs', rfl, hbeside⟩ :=
    hmirrors s₂ s₂' qs s₃ (hr ▸ hs.beside_merged hused hscope hused' hscope') hqs
  refine ⟨[s.used + 1], renameAll r qs, s₃', ?_, ⟨hr ▸ hbeside, ?_, hcovers⟩, ?_, ?_, ?_⟩
  · exact bind_eq_some.2 ⟨_, s₂', hs₂', bind_eq_some.2 ⟨_, s₃', hqs', rfl⟩⟩
  · rw [List.forall_mem_append, List.forall_mem_singleton]
    exact ⟨fun j hj => (hs.counted j hj).trans htrace.used_le, hvalue.2⟩
  · rw [hr]
    exact .left hstates (merged_renameAll ..)
  · exact iff_of_true (List.cons_ne_nil _ _) (isLookedUp_comparison.2 hc)
  · exact fun j hj => (Nat.lt_succ_self _).trans_eq (List.mem_singleton.1 hj).symm

/-- The members of a conjunction merge their values one after the other. -/
theorem merges_and {span : Span} {ts : List Term} (h : ∀ t ∈ ts, Merges x asked p (.named name) t) :
    Merges x asked p (.named name) (.group span .and ts) := by
  induction ts with
  | nil =>
    refine merges_of_not_isLookedUp (by simp [isLookedUp_and]) ?_
    rintro - c value ⟨⟩
    contradiction
  | cons t ts ih =>
    rw [List.forall_mem_cons] at h
    intro merged s s' ps s₂ hs hstep
    obtain ⟨ps, s₁, ht, hrest⟩ := bind_eq_some.1 hstep
    obtain ⟨qs, s₂, hts, hrest⟩ := bind_eq_some.1 hrest
    obtain ⟨rfl, rfl⟩ := pure_eq_some.1 hrest
    obtain ⟨⟨vs, htrace⟩, -, hps⟩ := makes_lower_result x t _ s ps s₁ rfl hs.covers ht
    obtain ⟨more, ps', s₁', ht', hs₁, hmerged, hfull, hlt⟩ := h.1 merged s s' ps s₁ hs ht
    obtain ⟨more', qs', s₂', hts', hs₂, hmerged', hfull', hlt'⟩ := ih h.2 _ s₁ s₁' qs s₂ hs₁ hts
    refine ⟨more ++ more', ps' ++ qs', s₂', ?_, ?_, ?_, ?_, ?_⟩
    · exact bind_eq_some.2 ⟨ps', s₁', ht', bind_eq_some.2 ⟨qs', s₂', hts', rfl⟩⟩
    · rwa [← List.append_assoc]
    · -- What is merged behind has not been made up where the first patterns are written.
      rw [← List.append_assoc]
      refine Merged.append (hmerged.congr (hps.mono fun a ha v hv => ?_)) hmerged'
      exact (renumbered_append_of_has (ha.known v hv) hlt').symm
    · rw [isLookedUp_and] at hfull'
      rw [Ne, List.append_eq_nil_iff, not_and_or, isLookedUp_and, List.exists_mem_cons_iff]
      exact or_congr hfull hfull'
    · rw [List.forall_mem_append]
      exact ⟨hlt, fun j hj => Nat.lt_of_le_of_lt htrace.used_le (hlt' j hj)⟩

/-- Lowering a term merges the values of the comparisons that look up the property, and no others. -/
theorem merges_lower {t : Term} (hp : x.ontology.isSingleValued p = false)
    (hasked : IsLookedUp x p t → asked)
    (hnames : asked → ∀ c value, Outermost c value t → c.property = some p → c.variableName = none) :
    Merges x asked p (.named name) t := by
  induction t with
  | comparison s c value =>
    by_cases hc : LooksUp x p c value
    · exact merges_of_looksUp hp hc (hasked (isLookedUp_comparison.2 hc)) s
    · exact merges_of_not_isLookedUp (mt isLookedUp_comparison.1 hc) hnames
  | group s k ts ih =>
    cases k with
    | and =>
      exact merges_and fun t ht => ih t ht (fun hc => hasked (isLookedUp_and.2 ⟨t, ht, hc⟩))
        fun h c value hc => hnames h c value (.member ht hc)
    | or => exact merges_of_not_isLookedUp (fun ⟨_, _, h, _⟩ => nomatch h) hnames
  | _ => exact merges_of_not_isLookedUp (fun ⟨_, _, h, _⟩ => nomatch h) hnames

end

end DesktopSearch.Sparql
