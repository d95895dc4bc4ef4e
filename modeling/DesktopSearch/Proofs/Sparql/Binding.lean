import DesktopSearch.Sparql.Pattern

/-!
# Variables that are bound before they are used

Triples bind variables (`Pattern.binds`); filters and full-text searches use them (`Pattern.uses`), and a
filter on a variable that nothing has bound holds of nothing. `Pattern.Inside` is about all the braces in
a list of patterns, with the patterns that stand in front of them in the braces around.

A list of patterns is guarded by some known variables if every variable that one of its patterns uses is
known, or is bound by a pattern in front of it in the same braces or in braces around it. This is said
along the patterns (`GuardedAll`), so that it can be proved pattern by pattern; `GuardedAll.mem_known`
says it of all braces.
-/

namespace DesktopSearch.Sparql

/-- The variables in a node. -/
def Node.variables : Node → List Variable
  | var v => [v]
  | _ => []

namespace Pattern

/-- The variables that a pattern binds for the patterns behind it. What is bound in braces stays there. -/
def binds : Pattern → List Variable
  | triple s p o => s.variables ++ p.variables ++ o.variables
  | eitherWay s p o _ => s.variables ++ p.variables ++ o.variables
  | instanceOf s c => s :: c.variables
  | _ => []

/-- The variables that a pattern needs to be bound. -/
def uses : Pattern → List Variable
  | isResource v _ | isOneOf v _ | compares v _ _ | matchesRegexp v _ | searches v _ _ => [v]
  | _ => []

/-! ## Braces -/

/-- The patterns between the braces of a block. -/
def body? : Pattern → Option (List Pattern)
  | block body => some body
  | _ => none

/-- What stands between the braces of a pattern, brace by brace. -/
def bodies : Pattern → List (List Pattern)
  | block body | holds body | fails body | optional body => [body]
  | union branches => branches.filterMap body?
  | _ => []

/-- The braces in a list of patterns that stands in braces itself : the patterns in front of them, in the
braces around them, and the patterns between them. -/
inductive Inside (ps : List Pattern) : List Pattern → List Pattern → Prop
  | self : Inside ps [] ps
  | inner {around front rest body : List Pattern} {p : Pattern}
    (h : Inside ps around (front ++ p :: rest)) (hbody : body ∈ p.bodies) :
    Inside ps (around ++ front) body

/-! ## Guarded patterns -/

mutual

/-- Everything that a pattern uses is known, or is bound inside it before. -/
def Guarded (known : List Variable) : Pattern → Prop
  | triple .. | eitherWay .. | instanceOf .. => True
  | isResource v _ => v ∈ known
  | isOneOf v _ => v ∈ known
  | compares v _ _ => v ∈ known
  | matchesRegexp v _ => v ∈ known
  | searches v _ _ => v ∈ known
  | block body => GuardedAll known body
  | holds body => GuardedAll known body
  | fails body => GuardedAll known body
  | optional body => GuardedAll known body
  | union branches => GuardedEach known branches

/-- Everything that patterns of one group use is known, or is bound by the ones before. -/
def GuardedAll (known : List Variable) : List Pattern → Prop
  | [] => True
  | p :: ps => p.Guarded known ∧ GuardedAll (known ++ p.binds) ps

/-- Everything that alternatives use is known, or is bound inside the same alternative before. -/
def GuardedEach (known : List Variable) : List Pattern → Prop
  | [] => True
  | p :: ps => p.Guarded known ∧ GuardedEach known ps

end

variable {known : List Variable}

/-- Patterns are guarded one behind the other if the later ones are, with what the earlier ones bind. -/
theorem guardedAll_append {ps qs : List Pattern} :
    GuardedAll known (ps ++ qs) ↔
      GuardedAll known ps ∧ GuardedAll (known ++ ps.flatMap binds) qs := by
  induction ps generalizing known with
  | nil => simp [GuardedAll]
  | cons p ps ih =>
    rw [List.cons_append, GuardedAll, GuardedAll, ih, and_assoc, List.flatMap_cons,
      List.append_assoc]

theorem guardedAll_singleton {p : Pattern} : GuardedAll known [p] ↔ p.Guarded known := by
  rw [GuardedAll, GuardedAll, and_true]

/-- A guarded pattern uses known variables only. -/
theorem Guarded.mem_known {p : Pattern} (h : p.Guarded known) : ∀ v ∈ p.uses, v ∈ known := by
  intro v hv
  cases p with
  | isResource | isOneOf | compares | matchesRegexp | searches =>
    obtain rfl := List.mem_singleton.1 hv
    exact h
  | _ => simp [uses] at hv

theorem GuardedEach.of_mem {ps : List Pattern} (h : GuardedEach known ps) {p : Pattern}
    (hp : p ∈ ps) : p.Guarded known := by
  induction ps with
  | nil => simp at hp
  | cons q ps ih =>
    rcases List.mem_cons.1 hp with rfl | hp
    · exact h.1
    · exact ih h.2 hp

/-- The patterns between the braces of a guarded pattern are guarded by the same variables. -/
theorem Guarded.bodies {p : Pattern} (h : p.Guarded known) {body : List Pattern}
    (hbody : body ∈ p.bodies) : GuardedAll known body := by
  cases p with
  | block | holds | fails | optional =>
    obtain rfl := List.mem_singleton.1 hbody
    exact h
  | union branches =>
    obtain ⟨p, hp, hbody⟩ := List.mem_filterMap.1 hbody
    have hguarded := GuardedEach.of_mem h hp
    cases p with
    | block body' =>
      obtain rfl := Option.some.inj hbody
      exact hguarded
    | _ => simp [body?] at hbody
  | _ => simp [Pattern.bodies] at hbody

/-- Between braces the variables are known that are bound in front of them, in all braces around. -/
theorem GuardedAll.inside {ps around body : List Pattern} (h : GuardedAll known ps)
    (hinside : Inside ps around body) : GuardedAll (known ++ around.flatMap binds) body := by
  induction hinside with
  | self => simpa using h
  | inner _ hbody ih =>
    obtain ⟨-, hp, -⟩ := guardedAll_append.1 ih
    rw [List.flatMap_append, ← List.append_assoc]
    exact hp.bodies hbody

/-- In whatever braces a pattern of a guarded list stands, what it uses is known, or is bound by a pattern
in front of it. -/
theorem GuardedAll.mem_known {ps around front rest : List Pattern} {p : Pattern}
    (h : GuardedAll known ps) (hinside : Inside ps around (front ++ p :: rest)) :
    ∀ v ∈ p.uses, v ∈ known ∨ ∃ b ∈ around ++ front, v ∈ b.binds := by
  intro v hv
  obtain ⟨-, hp, -⟩ := guardedAll_append.1 (h.inside hinside)
  have hknown := hp.mem_known v hv
  rw [List.append_assoc, ← List.flatMap_append, List.mem_append, List.mem_flatMap] at hknown
  exact hknown

/-! ## Statements -/

/-- The pattern states that a variable is a value of a property of the subject. -/
def States (subject : Variable) (property : Uri) (v : Variable) : Pattern → Prop
  | triple s p o | eitherWay s p o _ => s = .var subject ∧ p = .uri property ∧ o = .var v
  | _ => False

theorem States.mem_binds {subject v : Variable} {property : Uri} {p : Pattern}
    (h : p.States subject property v) : v ∈ p.binds := by
  cases p with
  | triple | eitherWay =>
    obtain ⟨rfl, rfl, rfl⟩ := h
    simp [binds, Node.variables]
  | _ => exact h.elim

end Pattern

end DesktopSearch.Sparql
