import DesktopSearch.Proofs.Sparql.Forms
import DesktopSearch.Proofs.Sparql.Lowering
import DesktopSearch.Proofs.Sparql.Material
import DesktopSearch.Proofs.Sparql.Preparation
import DesktopSearch.Proofs.Term.Gathered
import DesktopSearch.Sparql.Compilation

/-!
# The patterns of a query

A query is lowered in one step, `lowerQuery` : its prepared term, and behind it the restriction to results
that the user may see. The step makes its patterns of what the prepared term gives for them
(`makes_lowerQuery`), and nothing is gathered from the prepared term that the whole term of the query does
not have, but for the anchor of its negations (`Gathered.of_prepared`). Whatever braces a pattern stands
in, it is written in the text of the query (`text_infix_assemble`).
-/

namespace DesktopSearch

open Sparql Sparql.Pattern

/-! ## The prepared term -/

namespace Term.Gathered

variable {P : Term → Prop} (h : Gathered P) {o : Ontology}

include h

theorem of_alternatives {ts : List Term} (hP : P (alternatives ts)) : ∃ t ∈ ts, P t := by
  match ts with
  | [] => exact absurd hP (h.invalid _)
  | [t] => exact ⟨t, List.mem_singleton_self t, hP⟩
  | t :: u :: ts => exact (h.group _ _ _).1 hP

/-- Merging types and moving members adds nothing. -/
theorem of_refine {t : Term} (hP : P (refine o t)) : P t := by
  induction t with
  | comparison s c v ih => exact h.comparison .empty s c ih hP
  | negation s t ih => exact (h.negation s t).2 (ih ((h.negation _ _).1 hP))
  | optional s t ih => exact (h.optional s t).2 (ih ((h.optional _ _).1 hP))
  | group s k ts ih =>
    rw [h.group]
    cases k with
    | and =>
      obtain ⟨u, hu, hP⟩ := (h.group _ _ _).1 hP
      obtain ⟨t, ht, rfl⟩ := mem_refineNamed.1 hu
      exact ⟨t, ht, ih t ht hP⟩
    | or =>
      rw [refine] at hP
      obtain ⟨u, hu, hP⟩ := h.of_alternatives hP
      rcases List.mem_append.1 hu with hu | hu
      · obtain ⟨t, ht, -, rfl⟩ := mem_refineOthers.1 hu
        exact ⟨t, ht, ih t ht hP⟩
      · split at hu
        · simp at hu
        · rw [List.mem_singleton.1 hu] at hP
          exact absurd hP (h.types _ _)
  | _ => exact hP

/-- Anchoring negations adds the anchor at most. -/
theorem of_anchor {t : Term} (hP : P (anchor t)) :
    P t ∨ P typeAnchor := by
  induction t with
  | comparison s c v ih =>
    by_cases hanchor : P typeAnchor
    · exact Or.inr hanchor
    · exact Or.inl (h.comparison .empty s c (fun hv => (ih hv).resolve_right hanchor) hP)
  | negation s t ih =>
    obtain ⟨u, hu, hP⟩ := (h.group _ _ _).1 hP
    rcases List.mem_pair.1 hu with rfl | rfl
    · exact Or.inl hP
    · exact Or.inr hP
  | optional s t ih => exact (ih ((h.optional _ _).1 hP)).imp_left (h.optional s t).2
  | group s k ts ih =>
    rw [h.group]
    cases k with
    | and =>
      obtain ⟨u, hu, hP⟩ := (h.group _ _ _).1 hP
      rcases List.mem_append.1 hu with hu | hu
      · rw [anchorMembers_eq] at hu
        obtain ⟨t, ht, rfl⟩ := List.mem_map.1 hu
        split at hP
        · exact Or.inl ⟨t, ht, hP⟩
        · exact (ih t ht hP).imp_left fun hP => ⟨t, ht, hP⟩
      · split at hu
        · rw [List.mem_singleton.1 hu] at hP
          exact Or.inr hP
        · simp at hu
    | or =>
      obtain ⟨u, hu, hP⟩ := (h.group _ _ _).1 hP
      rw [anchorAll_eq] at hu
      obtain ⟨t, ht, rfl⟩ := List.mem_map.1 hu
      exact (ih t ht hP).imp_left fun hP => ⟨t, ht, hP⟩
  | _ => exact Or.inl hP

theorem of_prepared {q : Query} {counting : Bool}
    (hP : P (prepared o q counting)) : P (wholeTerm q counting) ∨ P typeAnchor :=
  (h.of_anchor hP).imp_left fun hP => h.of_optimize (h.of_refine hP)

end Term.Gathered

namespace Sparql

/-! ## Lowering -/

/-- What a query is lowered with. -/
def Setting.ofQuery (o : Ontology) (q : Query) (f : Flags) : Setting :=
  ⟨o, f.inverses, q.scoring && !f.counting⟩

/-- Whether the results need not be visible to the user. -/
def showsAll (q : Query) (f : Flags) : Bool := q.isFileQuery || f.noResultRestrictions

/-- The patterns of a query. -/
def lowerQuery (o : Ontology) (q : Query) (f : Flags) : Lower (List Pattern) := do
  let patterns ← lower (.ofQuery o q f) (prepared o q f.counting) .result
  if showsAll q f then return patterns
  else
    let v ← freshVariable
    return patterns ++ [visibility v]

variable {o : Ontology} {q : Query} {f : Flags} {ps : List Pattern} {s : Lowering}

theorem lowerQuery_of_body? (h : body? o q f = some (ps, s)) :
    lowerQuery o q f {} = some (ps, s) := by
  rw [body?] at h
  dsimp only at h
  split at h
  · contradiction
  obtain ⟨⟨qs, s₁⟩, hlower, h⟩ := Option.bind_eq_some_iff.1 h
  dsimp only at h
  refine bind_eq_some.2 ⟨qs, s₁, hlower, ?_⟩
  rw [showsAll]
  split at h
  · contradiction
  split at h
  · rename_i hall
    rw [if_pos hall]
    exact h
  · rename_i hall
    rw [if_neg hall]
    exact h

/-- The restriction to results that the user may see, if there is any, with a variable of its own. -/
def restriction (q : Query) (f : Flags) (n : Nat) : List Pattern :=
  if showsAll q f then [] else [visibility (.generated n)]

/-- The patterns of the term come first, and little is decided behind them. -/
theorem exists_lower_of_body? (h : body? o q f = some (ps, s)) :
    ∃ qs s₁, lower (.ofQuery o q f) (prepared o q f.counting) .result {} = some (qs, s₁) ∧ qs ≠ [] ∧
      ps = qs ++ restriction q f (s₁.used + 1) ∧ s.columns = s₁.columns ∧
      s.sortKeys = s₁.sortKeys := by
  rw [body?] at h
  dsimp only at h
  split at h
  · contradiction
  obtain ⟨⟨qs, s₁⟩, hlower, h⟩ := Option.bind_eq_some_iff.1 h
  dsimp only at h
  split at h
  · contradiction
  rename_i hfull
  refine ⟨qs, s₁, hlower, by simpa using hfull, ?_⟩
  rw [restriction, showsAll]
  split at h
  · rename_i hall
    obtain ⟨rfl, rfl⟩ := Prod.mk.inj (Option.some.inj h)
    rw [if_pos hall]
    exact ⟨(List.append_nil _).symm, rfl, rfl⟩
  · rename_i hall
    obtain ⟨rfl, rfl⟩ := Prod.mk.inj (Option.some.inj h)
    rw [if_neg hall]
    exact ⟨rfl, rfl, rfl⟩

/-- A query whose term is lowered to any patterns is expressed. -/
theorem exists_body?_of_lower {qs : List Pattern} {s₁ : Lowering} (hfull : qs ≠ [])
    (h : lower (.ofQuery o q f) (prepared o q f.counting) .result {} = some (qs, s₁)) :
    ∃ s, body? o q f = some (qs ++ restriction q f (s₁.used + 1), s) := by
  have hvalid : (prepared o q f.counting).isValid = true := isValid_of_lower h
  rw [Setting.ofQuery] at h
  rw [body?]
  simp only [hvalid, h, Bool.not_true, Bool.false_eq_true, if_false, Option.bind_eq_bind,
    Option.bind_some, List.isEmpty_iff, hfull]
  rw [restriction, showsAll]
  split
  · exact ⟨s₁, by rw [List.append_nil]⟩
  · exact ⟨_, rfl⟩

theorem makes_lowerQuery {m : Material} (h : m.Gives (prepared o q f.counting)) :
    MakesPatterns m 0 (lowerQuery o q f) := by
  have hterm : MakesPatterns m 0 (lower (.ofQuery o q f) (prepared o q f.counting) .result) :=
    makes_lower _ h trivial
  refine hterm.bind fun ps k _ hps => ?_
  split
  · exact makes_pure hps
  · refine makes_freshVariable.bind fun v k' hle hv => makes_pure (everywhereAll_append.2 ⟨?_, ?_⟩)
    · exact hps.mono fun _ hp => hp.mono hle
    · refine everywhereAll_singleton.2 ⟨Material.fits_of_ownVariables_eq_nil rfl rfl, ⟨?_, ?_⟩, ⟨?_, ?_⟩, trivial⟩
      · simpa [Pattern.ownVariables, binds, uses, Node.variables, Material.Has] using hv
      · simp [searched?]
      · simpa [Pattern.ownVariables, binds, uses, Node.variables] using hv
      · simp [searched?]

/-! ## Text -/

theorem textAll_append (ps qs : List Pattern) : textAll (ps ++ qs) = textAll ps ++ textAll qs := by
  induction ps with
  | nil => exact String.empty_append.symm
  | cons p ps ih => rw [List.cons_append, textAll, ih, textAll, String.append_assoc]

theorem toList_infix_append (front t back : String) :
    t.toList <:+: (front ++ t ++ back).toList :=
  ⟨front.toList, back.toList, by simp⟩

theorem infix_intercalate {ts : List String} {t : String} (ht : t ∈ ts) (separator : String) :
    t.toList <:+: (separator.intercalate ts).toList := by
  induction ts with
  | nil => simp at ht
  | cons u us ih =>
    rcases eq_or_ne us [] with rfl | hus
    · obtain rfl := List.mem_singleton.1 ht
      have htext : separator.intercalate [t] = t := String.intercalate_singleton
      exact htext.symm ▸ List.infix_rfl
    rw [String.intercalate_cons_of_ne_nil hus]
    rcases List.mem_cons.1 ht with rfl | ht
    · rw [String.append_assoc, String.toList_append]
      exact (List.prefix_append _ _).isInfix
    · rw [String.toList_append]
      exact (ih ht).trans (List.suffix_append _ _).isInfix

theorem mem_texts {ps : List Pattern} {p : Pattern} (hp : p ∈ ps) : p.text ∈ texts ps := by
  induction ps with
  | nil => simp at hp
  | cons q ps ih => exact List.mem_cons.2 ((List.mem_cons.1 hp).imp (congrArg text) ih)

/-- What stands between the braces of a pattern is written in the text of the pattern. -/
theorem textAll_infix_text {p : Pattern} {body : List Pattern} (hbody : body ∈ p.bodies) :
    (textAll body).toList <:+: p.text.toList := by
  cases p with
  | block | holds | fails | optional =>
    obtain rfl := List.mem_singleton.1 hbody
    exact toList_infix_append _ _ _
  | union branches =>
    obtain ⟨p, hp, hbody⟩ := List.mem_filterMap.1 hbody
    cases p with
    | block body' =>
      obtain rfl := Option.some.inj hbody
      have hbranch := infix_intercalate (mem_texts hp) " UNION "
      have hunion := toList_infix_append "" (" UNION ".intercalate (texts branches)) " . "
      rw [String.empty_append] at hunion
      exact (toList_infix_append "\x7b " _ " \x7d").trans (hbranch.trans hunion)
    | _ => simp [Pattern.body?] at hbody
  | _ => exact absurd hbody List.not_mem_nil

theorem text_infix_textAll (front rest : List Pattern) (p : Pattern) :
    p.text.toList <:+: (textAll (front ++ p :: rest)).toList := by
  rw [textAll_append, textAll, ← String.append_assoc]
  exact toList_infix_append _ _ _

/-- Whatever braces patterns stand in, they are written in the text of the whole. -/
theorem Pattern.Inside.infix_textAll {around body : List Pattern} (h : Inside ps around body) :
    (textAll body).toList <:+: (textAll ps).toList := by
  induction h with
  | self => exact List.infix_rfl
  | inner _ hbody ih => exact (textAll_infix_text hbody).trans ((text_infix_textAll _ _ _).trans ih)

/-- A pattern is written in the text of its query, whatever braces it stands in. -/
theorem text_infix_assemble {around front rest : List Pattern} {p : Pattern}
    (h : Inside ps around (front ++ p :: rest)) :
    p.text.toList <:+: (assemble q f ps s).toList := by
  obtain ⟨head, tail, -, htext⟩ := exists_frame q f ps s
  rw [htext]
  have hwhere : (textAll ps).toList <:+: (whereText ps).toList := toList_infix_append _ _ _
  exact (text_infix_textAll _ _ _).trans (h.infix_textAll.trans (hwhere.trans (toList_infix_append _ _ _)))

end Sparql

end DesktopSearch
