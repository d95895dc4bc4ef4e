import DesktopSearch.Fusion.Item
import Mathlib.Tactic.SplitIfs

/-!
# Levels of a list of terms

A term has a `Role` in a level : the words of the operators, the two parentheses, stop words, and everything
else. The words are listed in one table (`Role.words`), and the marks of terms follow it (`ofTerm_eq`).

The items of a list are read with a stack of open levels. `Item.read_cons` says that this is reading level by
level : an opening parenthesis makes one item of the items of the list behind it, and the items of the level
go on `behind` the parenthesis that closes it.
-/

namespace DesktopSearch

/-! ## Roles -/

/-- What a term does in a level. -/
inductive Role where
  | or
  | and
  | not
  | opens
  | closes
  | skipped
  | plain
  deriving DecidableEq

namespace Role

/-- The words with a role, in lower case. A word that is listed twice has the role it is listed for first. -/
def words (s : Settings) : List (Role × List String) :=
  [(or, [s.orKeyword]), (and, [s.andKeyword, "+"]), (not, [s.notKeyword, "!", "-"]), (opens, ["("]),
    (closes, [")"])]

/-- The role of a term : only words have one of their own, and stop words are skipped. -/
def of (s : Settings) (t : Term) : Role :=
  match t.string? with
  | none => plain
  | some word =>
    match (words s).find? (·.2.contains (Text.lower word)) with
    | some (role, _) => role
    | none => if s.isStopWord word then skipped else plain

/-- The mark of a term with a role. -/
def mark (t : Term) : Role → Mark
  | or => .item .or
  | and => .item .and
  | not => .item (.not t.span)
  | opens => .opens
  | closes => .closes
  | skipped => .stopWord
  | plain => .item (.term t)

end Role

/-- A term is what its role says. -/
theorem Mark.ofTerm_eq (s : Settings) (t : Term) : Mark.ofTerm s t = (Role.of s t).mark t := by
  rw [Mark.ofTerm, Role.of]
  cases t.string? with
  | none => rfl
  | some word =>
    dsimp only [Mark.ofWord]
    generalize Text.lower word = name
    by_cases hor : name = s.orKeyword
    · simp [Role.words, hor, Role.mark]
    by_cases hand : name = s.andKeyword ∨ name = "+"
    · simp [Role.words, hor, hand, Role.mark]
    by_cases hnot : name = s.notKeyword ∨ name = "!" ∨ name = "-"
    · simp [Role.words, hor, hand, hnot, Role.mark]
    rw [not_or] at hand hnot
    by_cases hopens : name = "("
    · subst hopens
      simp [Role.words, hor, hand.1, hnot.1, Role.mark]
    by_cases hcloses : name = ")"
    · subst hcloses
      simp [Role.words, hor, hand.1, hnot.1, Role.mark]
    by_cases hstop : s.isStopWord word <;>
      simp [Role.words, hor, hand, hnot, hopens, hcloses, hstop, Role.mark]

/-! ## Behind a level -/

/-- What stands behind the parenthesis that closes a level, `depth` more of which are open inside it. -/
def behind (s : Settings) : (depth : Nat) → List Term → List Term
  | _, [] => []
  | depth, t :: ts =>
    match Role.of s t with
    | .opens => behind s (depth + 1) ts
    | .closes =>
      match depth with
      | 0 => ts
      | depth + 1 => behind s depth ts
    | _ => behind s depth ts

theorem behind_suffix (s : Settings) (depth : Nat) (ts : List Term) : behind s depth ts <:+ ts := by
  induction ts generalizing depth with
  | nil => exact List.suffix_refl []
  | cons t ts ih =>
    simp only [behind]
    split
    case h_2 =>
      cases depth with
      | zero => exact List.suffix_cons t ts
      | succ depth => exact (ih depth).trans (List.suffix_cons t ts)
    all_goals exact (ih _).trans (List.suffix_cons t ts)

theorem length_behind_le (s : Settings) (depth : Nat) (ts : List Term) :
    (behind s depth ts).length ≤ ts.length :=
  (behind_suffix s depth ts).length_le

/-- Behind two levels is behind the outer one, behind the inner one. -/
theorem behind_succ (s : Settings) (depth : Nat) (ts : List Term) :
    behind s (depth + 1) ts = behind s depth (behind s 0 ts) := by
  match ts with
  | [] => simp [behind]
  | t :: ts =>
    have ih := fun depth => behind_succ s depth ts
    cases h : Role.of s t with
    | opens =>
      have := length_behind_le s 0 ts
      have inner := behind_succ s depth (behind s 0 ts)
      simp only [behind, h, ih, inner]
    | closes => simp only [behind, h]
    | _ => simp only [behind, h, ih]
termination_by ts.length

/-! ## Reading level by level -/

namespace Item

variable (s : Settings)

/-- The items of a list of terms. -/
def all (ts : List Term) : List Item := (ofTerms s ts).1

mutual

/-- What a level has so far stays in front. -/
theorem read_nil (level : List Item) (ts : List Term) :
    (read s level [] ts).1 = level ++ all s ts := by
  match ts with
  | [] => simp [all, ofTerms, read, closeAll]
  | t :: ts =>
    have hlevel := fun level => read_nil level ts
    simp only [all, ofTerms, read, Mark.ofTerm_eq]
    cases Role.of s t with
    | opens =>
      have := length_behind_le s 0 ts
      simp only [Role.mark, read.count, read_cons _ _ _ ts, read_nil _ (behind s 0 ts),
        List.nil_append, List.append_assoc]
    | closes => simp [Role.mark]
    | _ => simp only [Role.mark, read.count, hlevel, List.nil_append, List.append_assoc]
termination_by ts.length

/-- A level is read to its end, as an item of the level around it. -/
theorem read_cons (level next : List Item) (outer : List (List Item)) (ts : List Term) :
    (read s level (next :: outer) ts).1 =
      (read s (next ++ [.level (level ++ all s ts)]) outer (behind s 0 ts)).1 := by
  match ts with
  | [] => simp [all, ofTerms, read, behind, closeAll]
  | t :: ts =>
    have hlength := length_behind_le s 0 ts
    have hlevel := fun level => read_nil level ts
    have houter := fun level next outer => read_cons level next outer ts
    simp only [all, ofTerms, read, behind, Mark.ofTerm_eq]
    cases Role.of s t with
    | opens =>
      simp only [Role.mark, read.count, houter, List.nil_append, behind_succ,
        read_nil _ (behind s 0 ts), read_cons _ next outer (behind s 0 ts), List.append_assoc]
    | closes => simp [Role.mark, read.count]
    | _ => simp only [Role.mark, read.count, hlevel, houter, List.nil_append, List.append_assoc]
termination_by ts.length

end

/-- The items from a term on, by its role. -/
theorem all_cons (t : Term) (ts : List Term) :
    all s (t :: ts) =
      match Role.of s t with
      | .or => .or :: all s ts
      | .and => .and :: all s ts
      | .not => .not t.span :: all s ts
      | .opens => .level (all s ts) :: all s (behind s 0 ts)
      | .closes => []
      | .skipped => all s ts
      | .plain => .term t :: all s ts := by
  rw [all, ofTerms, read, Mark.ofTerm_eq]
  cases Role.of s t with
  | closes => simp [Role.mark]
  | _ => simp [Role.mark, read.count, read_nil, read_cons]

end Item

end DesktopSearch
