import DesktopSearch.Proofs.Fusion.Nodes
import DesktopSearch.Proofs.Term.Markup

/-!
# What fusion keeps

A list is fused up to the first parenthesis that closes nothing : it comes to what the terms `inFront` of that
parenthesis come to (`fuse_inFront`), and the literals behind it are lost. In front of it no word is lost that
is searched for, nor any literal of a comparison (`mem_literals_fuse_word`, `mem_literals_fuse_comparison`).
-/

namespace DesktopSearch

variable {settings : Settings} {flags : ParserFlags} {t : Term} {ts : List Term} {depth n : Nat}

/-! ## In front of a parenthesis -/

/-- What stands in front of the parenthesis that closes a level, `depth` more of which are open inside it. -/
def inFront (s : Settings) : (depth : Nat) → List Term → List Term
  | _, [] => []
  | depth, t :: ts =>
    match Role.of s t, depth with
    | .opens, depth => t :: inFront s (depth + 1) ts
    | .closes, 0 => []
    | .closes, depth + 1 => t :: inFront s depth ts
    | _, depth => t :: inFront s depth ts

theorem inFront_opens (ht : Role.of settings t = .opens) (depth : Nat) (ts : List Term) :
    inFront settings depth (t :: ts) = t :: inFront settings (depth + 1) ts := by
  simp only [inFront, ht]

theorem inFront_closes (ht : Role.of settings t = .closes) (ts : List Term) :
    inFront settings 0 (t :: ts) = [] := by
  simp only [inFront, ht]

theorem inFront_closes_succ (ht : Role.of settings t = .closes) (depth : Nat) (ts : List Term) :
    inFront settings (depth + 1) (t :: ts) = t :: inFront settings depth ts := by
  simp only [inFront, ht]

theorem inFront_other (hopens : Role.of settings t ≠ .opens) (hcloses : Role.of settings t ≠ .closes)
    (depth : Nat) (ts : List Term) : inFront settings depth (t :: ts) = t :: inFront settings depth ts := by
  cases ht : Role.of settings t with
  | opens => contradiction
  | closes => contradiction
  | _ => simp only [inFront, ht]

theorem LeavesOpen.inFront_eq_self (h : LeavesOpen settings depth ts n) : inFront settings depth ts = ts := by
  induction h with
  | nil depth => rfl
  | opens ht _ ih => rw [inFront_opens ht, ih]
  | closes ht _ ih => rw [inFront_closes_succ ht, ih]
  | other hopens hcloses _ ih => rw [inFront_other hopens hcloses, ih]

theorem LeavesOpen.inFront_append_closes {close : Term} (h : LeavesOpen settings depth ts n) (hn : n = 0)
    (hclose : Role.of settings close = .closes) (after : List Term) :
    inFront settings depth (ts ++ close :: after) = ts := by
  induction h with
  | nil depth =>
    subst hn
    exact inFront_closes hclose after
  | opens ht _ ih => rw [List.cons_append, inFront_opens ht, ih hn]
  | closes ht _ ih => rw [List.cons_append, inFront_closes_succ ht, ih hn]
  | other hopens hcloses _ ih => rw [List.cons_append, inFront_other hopens hcloses, ih hn]

/-- A list is what stands in front of a parenthesis that closes nothing, that parenthesis, and what stands
behind it, if there is such a parenthesis. -/
theorem mem_inFront_or (settings : Settings) (ht : t ∈ ts) :
    t ∈ inFront settings 0 ts ∨ Role.of settings t = .closes ∨ t ∈ behind settings 0 ts := by
  obtain ⟨n, h⟩ | ⟨inner, close, after, rfl, hclose, hinner⟩ := exists_leavesOpen_or settings 0 ts
  · exact Or.inl (h.inFront_eq_self.symm ▸ ht)
  · rw [hinner.inFront_append_closes rfl hclose, hinner.behind_append_closes rfl hclose]
    rcases List.mem_append.1 ht with ht | ht
    · exact Or.inl ht
    · rcases List.mem_cons.1 ht with rfl | ht
      · exact Or.inr (Or.inl hclose)
      · exact Or.inr (Or.inr ht)

theorem exists_leavesOpen_inFront (settings : Settings) (ts : List Term) :
    ∃ n, LeavesOpen settings 0 (inFront settings 0 ts) n := by
  obtain ⟨n, h⟩ | ⟨inner, close, after, rfl, hclose, hinner⟩ := exists_leavesOpen_or settings 0 ts
  · exact ⟨n, h.inFront_eq_self.symm ▸ h⟩
  · exact ⟨0, (hinner.inFront_append_closes rfl hclose after).symm ▸ hinner⟩

/-- What a list comes to depends on the terms in front of the parenthesis alone. -/
theorem fuse_inFront (settings : Settings) (flags : ParserFlags) (ts : List Term) :
    (fuse settings flags (inFront settings 0 ts) 0).1 = (fuse settings flags ts 0).1 := by
  obtain ⟨n, h⟩ | ⟨inner, close, after, rfl, hclose, hinner⟩ := exists_leavesOpen_or settings 0 ts
  · rw [h.inFront_eq_self]
  · rw [hinner.inFront_append_closes rfl hclose]
    exact congrArg (fun items => (fuseItems settings flags {} items).fused)
      (Item.all_append_closes hinner hclose after).symm

/-! ## Literals -/

namespace Term

theorem mem_memberNodes {ts : List Term} {u : Term} : u ∈ memberNodes ts ↔ ∃ t ∈ ts, u ∈ t.nodes := by
  induction ts with
  | nil => simp [memberNodes]
  | cons t ts ih => simp [memberNodes, ih]

/-- The literals of the nodes of a term are literals of the term. -/
theorem literals_subset_of_mem_nodes {t u : Term} (h : u ∈ t.nodes) : u.literals ⊆ t.literals := by
  induction t with
  | group s k ts ih =>
    obtain ⟨t, ht, hu⟩ := mem_memberNodes.1 h
    exact fun l hl => mem_literalsOfAll.2 ⟨t, ht, ih t ht hu hl⟩
  | negation s t ih => exact ih h
  | optional s t ih =>
    rcases List.mem_cons.1 h with rfl | h
    · exact fun l hl => hl
    · exact ih h
  | _ =>
    rw [List.mem_singleton.1 h]
    exact fun l hl => hl

end Term

theorem exists_tune_mem_tunedAfter (ht : t ∈ ts) (hplain : Role.of settings t = .plain)
    (hvalid : t.isValid = true) (before : List Term) :
    ∃ c, tune settings flags c t ∈ tunedAfter settings flags before ts := by
  induction ts generalizing before with
  | nil => simp at ht
  | cons u ts ih =>
    rw [tunedAfter]
    rcases List.mem_cons.1 ht with rfl | ht
    · rw [if_pos ⟨hplain, hvalid⟩]
      exact ⟨_, List.mem_append_left _ List.mem_cons_self⟩
    · obtain ⟨c, hc⟩ := ih ht (u :: before)
      exact ⟨c, List.mem_append_right _ hc⟩

/-- A literal that a term in front keeps in every context is a literal of what the list comes to. -/
theorem mem_literals_fuse {l : Literal} (ht : t ∈ inFront settings 0 ts)
    (hplain : Role.of settings t = .plain) (hvalid : t.isValid = true)
    (hl : ∀ c, ∃ u ∈ (tune settings flags c t).nodes, l ∈ u.literals) :
    (fuse settings flags ts 0).1.isValid = true ∧ l ∈ (fuse settings flags ts 0).1.literals := by
  obtain ⟨n, hlevel⟩ := exists_leavesOpen_inFront settings ts
  obtain ⟨c, hc⟩ := exists_tune_mem_tunedAfter ht hplain hvalid []
  obtain ⟨u, hu, hl⟩ := hl c
  have hcontent : u ∈ (fuse settings flags ts 0).1.content := by
    have hfuse : (fuse settings flags (inFront settings 0 ts) 0).1.content =
        (tunedAfter settings flags [] (inFront settings 0 ts)).flatMap Term.nodes :=
      content_fuseItems hlevel (s := {}) rfl
    rw [← fuse_inFront, hfuse]
    exact List.mem_flatMap.2 ⟨_, hc, hu⟩
  have hfused : (fuse settings flags ts 0).1.isValid = true := by
    by_contra hinvalid
    rw [Term.content_of_not_isValid (Bool.not_eq_true _ ▸ hinvalid)] at hcontent
    simp at hcontent
  rw [Term.content_of_isValid hfused] at hcontent
  exact ⟨hfused, Term.literals_subset_of_mem_nodes hcontent hl⟩

/-- The form in which a plain word is searched for. -/
def globbed (flags : ParserFlags) (word : String) : String :=
  if globs flags word then word ++ "*" else word

theorem tune_word {word : String} (h : t.string? = some word) (c : ResourceContext) :
    tune settings flags c t = .literal t.span (.string (globbed flags word)) := by
  cases t with
  | literal s l =>
    cases l with
    | string w =>
      obtain rfl : w = word := Option.some.inj h
      rw [tune, globbed]
      split <;> rfl
    | _ => simp [Term.string?, Term.literal?, Literal.string?] at h
  | _ => simp [Term.string?, Term.literal?] at h

/-- A plain word in front is searched for. -/
theorem mem_literals_fuse_word {word : String} (ht : t ∈ inFront settings 0 ts)
    (hplain : Role.of settings t = .plain) (hword : t.string? = some word) :
    (fuse settings flags ts 0).1.isValid = true ∧
      .string (globbed flags word) ∈ (fuse settings flags ts 0).1.literals := by
  have hvalid : t.isValid = true := by
    cases t with
    | invalid s => simp [Term.string?, Term.literal?] at hword
    | _ => rfl
  refine mem_literals_fuse ht hplain hvalid fun c => ?_
  rw [tune_word hword]
  exact ⟨_, List.mem_singleton_self _, List.mem_singleton_self _⟩

/-- So are the words in a comparison in front. -/
theorem mem_literals_fuse_comparison {s : Span} {head : Comparison} {value : Term} {word : String}
    (ht : .comparison s head value ∈ inFront settings 0 ts) (hl : .string word ∈ value.literals) :
    (fuse settings flags ts 0).1.isValid = true ∧
      .string word ∈ (fuse settings flags ts 0).1.literals := by
  refine mem_literals_fuse ht rfl rfl fun c => ?_
  have hmoment : value.moment? = none := by
    cases value with
    | literal r l => cases l <;> simp_all [Term.literals, Term.moment?, Term.literal?, Literal.moment?]
    | _ => rfl
  rw [tune, tuneComparison, hmoment]
  exact ⟨_, List.mem_singleton_self _, hl⟩

end DesktopSearch
