import DesktopSearch.Proofs.Sparql.Binding

/-!
# Patterns at every depth

Braces hold patterns, so what is said of all patterns of a query is said of a pattern and of the patterns
in its braces (`Pattern.Everywhere`). What holds everywhere holds between any braces
(`Pattern.EverywhereAll.inside`).
-/

namespace DesktopSearch.Sparql.Pattern

/-- The variables in a pattern, without those between its braces. -/
def ownVariables : Pattern → List Variable
  | searches v _ score => v :: score.toList
  | p => p.binds ++ p.uses

/-- What a pattern binds is in the pattern itself, not between its braces. -/
theorem binds_subset_ownVariables (p : Pattern) : p.binds ⊆ p.ownVariables := by
  cases p with
  | searches => exact List.nil_subset _
  | _ => exact List.subset_append_left _ _

mutual

/-- The property holds of the pattern and of all patterns between its braces. -/
def Everywhere (P : Pattern → Prop) : Pattern → Prop
  | block body => P (block body) ∧ EverywhereAll P body
  | holds body => P (holds body) ∧ EverywhereAll P body
  | fails body => P (fails body) ∧ EverywhereAll P body
  | optional body => P (optional body) ∧ EverywhereAll P body
  | union branches => P (union branches) ∧ EverywhereAll P branches
  | p => P p

/-- The property holds everywhere in the patterns of a list. -/
def EverywhereAll (P : Pattern → Prop) : List Pattern → Prop
  | [] => True
  | p :: ps => p.Everywhere P ∧ EverywhereAll P ps

end

variable {P Q : Pattern → Prop}

/-- A property holds everywhere in a list if it holds everywhere in each of its patterns. -/
theorem everywhereAll_iff {ps : List Pattern} :
    EverywhereAll P ps ↔ ∀ p ∈ ps, p.Everywhere P := by
  induction ps with
  | nil => simp [EverywhereAll]
  | cons p ps ih => rw [EverywhereAll, ih, List.forall_mem_cons]

theorem everywhereAll_append {ps qs : List Pattern} :
    EverywhereAll P (ps ++ qs) ↔ EverywhereAll P ps ∧ EverywhereAll P qs := by
  simp only [everywhereAll_iff, List.forall_mem_append]

theorem everywhereAll_singleton {p : Pattern} : EverywhereAll P [p] ↔ p.Everywhere P := by
  rw [EverywhereAll, EverywhereAll, and_true]

theorem Everywhere.self {p : Pattern} (h : p.Everywhere P) : P p := by
  cases p with
  | block | holds | fails | optional | union => exact h.1
  | _ => exact h

mutual

/-- What follows from the property holds everywhere, too. -/
theorem Everywhere.mono (h : ∀ p, P p → Q p) : ∀ {p : Pattern}, p.Everywhere P → p.Everywhere Q
  | block _, hp => ⟨h _ hp.1, EverywhereAll.mono h hp.2⟩
  | holds _, hp => ⟨h _ hp.1, EverywhereAll.mono h hp.2⟩
  | fails _, hp => ⟨h _ hp.1, EverywhereAll.mono h hp.2⟩
  | optional _, hp => ⟨h _ hp.1, EverywhereAll.mono h hp.2⟩
  | union _, hp => ⟨h _ hp.1, EverywhereAll.mono h hp.2⟩
  | triple .., hp | instanceOf .., hp | isResource .., hp | isOneOf .., hp | compares .., hp
  | matchesRegexp .., hp | searches .., hp | eitherWay .., hp => h _ hp

theorem EverywhereAll.mono (h : ∀ p, P p → Q p) :
    ∀ {ps : List Pattern}, EverywhereAll P ps → EverywhereAll Q ps
  | [], _ => trivial
  | _ :: _, hps => ⟨Everywhere.mono h hps.1, EverywhereAll.mono h hps.2⟩

end

/-- What holds everywhere in a pattern holds everywhere between its braces. -/
theorem Everywhere.bodies {p : Pattern} (h : p.Everywhere P) {body : List Pattern}
    (hbody : body ∈ p.bodies) : EverywhereAll P body := by
  cases p with
  | block | holds | fails | optional =>
    obtain rfl := List.mem_singleton.1 hbody
    exact h.2
  | union branches =>
    obtain ⟨p, hp, hbody⟩ := List.mem_filterMap.1 hbody
    have hbranch := everywhereAll_iff.1 h.2 p hp
    cases p with
    | block body' =>
      obtain rfl := Option.some.inj hbody
      exact hbranch.2
    | _ => simp [body?] at hbody
  | _ => simp [Pattern.bodies] at hbody

/-- What holds everywhere holds between any braces. -/
theorem EverywhereAll.inside {ps around body : List Pattern} (h : EverywhereAll P ps)
    (hinside : Inside ps around body) : EverywhereAll P body := by
  induction hinside with
  | self => exact h
  | inner _ hbody ih => exact Everywhere.bodies (everywhereAll_append.1 ih).2.1 hbody

/-- What holds everywhere holds of each pattern between any braces. -/
theorem EverywhereAll.of_inside {ps around front rest : List Pattern} {p : Pattern}
    (h : EverywhereAll P ps) (hinside : Inside ps around (front ++ p :: rest)) : P p :=
  Everywhere.self (everywhereAll_append.1 (h.inside hinside)).2.1

end DesktopSearch.Sparql.Pattern
