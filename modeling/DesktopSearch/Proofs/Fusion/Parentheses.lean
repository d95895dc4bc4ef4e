import DesktopSearch.Fusion.Tuning
import DesktopSearch.Proofs.Fusion.Level

/-!
# Parentheses

Terms that are read while some levels are open leave as many or others open (`LeavesOpen`), unless a
parenthesis closes nothing. A list either leaves its level open or is split by the parenthesis that closes it
(`exists_leavesOpen_or`), and items are read up to that parenthesis as if nothing came after it
(`read_append_closes`). How far a list is read is told by `read_snd_eq` : it is the length of the list, and
one more for every level that is still open.

The context at a place is looked for backwards (`contextBefore`). A level that is closed has no part in it
(`contextBefore_level`).
-/

namespace DesktopSearch

variable {s : Settings} {t : Term} {ts us : List Term} {depth n : Nat}

/-! ## Levels that are left open -/

/-- Reading terms with some levels open leaves a number of levels open, and every parenthesis that closes a
level closes one of them. -/
inductive LeavesOpen (s : Settings) : (depth : Nat) → List Term → (n : Nat) → Prop
  | nil (depth : Nat) : LeavesOpen s depth [] depth
  | opens {t : Term} {ts : List Term} {depth n : Nat} (ht : Role.of s t = .opens)
      (h : LeavesOpen s (depth + 1) ts n) : LeavesOpen s depth (t :: ts) n
  | closes {t : Term} {ts : List Term} {depth n : Nat} (ht : Role.of s t = .closes)
      (h : LeavesOpen s depth ts n) : LeavesOpen s (depth + 1) (t :: ts) n
  | other {t : Term} {ts : List Term} {depth n : Nat} (hopens : Role.of s t ≠ .opens)
      (hcloses : Role.of s t ≠ .closes) (h : LeavesOpen s depth ts n) : LeavesOpen s depth (t :: ts) n

namespace LeavesOpen

/-- Levels around a list stay around it. -/
theorem add (h : LeavesOpen s depth ts n) (k : Nat) : LeavesOpen s (depth + k) ts (n + k) := by
  induction h with
  | nil depth => exact .nil _
  | opens ht _ ih => exact .opens ht (Nat.add_right_comm _ 1 k ▸ ih)
  | closes ht _ ih => exact Nat.add_right_comm _ 1 k ▸ .closes ht ih
  | other hopens hcloses _ ih => exact .other hopens hcloses ih

theorem tail_opens (h : LeavesOpen s depth (t :: ts) n) (ht : Role.of s t = .opens) :
    LeavesOpen s (depth + 1) ts n := by
  cases h with
  | opens _ h => exact h
  | closes hcloses _ => exact absurd (ht.symm.trans hcloses) (by simp)
  | other hopens _ _ => exact absurd ht hopens

theorem tail_closes (h : LeavesOpen s depth (t :: ts) n) (ht : Role.of s t = .closes) :
    ∃ outer, depth = outer + 1 ∧ LeavesOpen s outer ts n := by
  cases h with
  | opens hopens _ => exact absurd (ht.symm.trans hopens) (by simp)
  | closes _ h => exact ⟨_, rfl, h⟩
  | other _ hcloses _ => exact absurd ht hcloses

theorem tail_other (h : LeavesOpen s depth (t :: ts) n) (hopens : Role.of s t ≠ .opens)
    (hcloses : Role.of s t ≠ .closes) : LeavesOpen s depth ts n := by
  cases h with
  | opens ht _ => exact absurd ht hopens
  | closes ht _ => exact absurd ht hcloses
  | other _ _ h => exact h

theorem of_append {m : Nat} (h : LeavesOpen s depth ts m) (hall : LeavesOpen s depth (ts ++ us) n) :
    LeavesOpen s m us n := by
  induction h with
  | nil depth => exact hall
  | opens ht _ ih => exact ih (hall.tail_opens ht)
  | closes ht _ ih =>
    obtain ⟨_, hdepth, hall⟩ := hall.tail_closes ht
    obtain rfl := Nat.succ.inj hdepth
    exact ih hall
  | other hopens hcloses _ ih => exact ih (hall.tail_other hopens hcloses)

end LeavesOpen

/-- How many levels are open behind a list, if no parenthesis in it closes nothing. -/
def leftOpen? (s : Settings) : (depth : Nat) → List Term → Option Nat
  | depth, [] => some depth
  | depth, t :: ts =>
    match Role.of s t, depth with
    | .opens, depth => leftOpen? s (depth + 1) ts
    | .closes, 0 => none
    | .closes, depth + 1 => leftOpen? s depth ts
    | _, depth => leftOpen? s depth ts

theorem leavesOpen_iff : LeavesOpen s depth ts n ↔ leftOpen? s depth ts = some n := by
  constructor
  · intro h
    induction h with
    | nil depth => rfl
    | opens ht _ ih => simpa only [leftOpen?, ht] using ih
    | closes ht _ ih => simpa only [leftOpen?, ht] using ih
    | @other t ts depth n hopens hcloses _ ih =>
      cases ht : Role.of s t with
      | opens => contradiction
      | closes => contradiction
      | _ => simpa only [leftOpen?, ht] using ih
  · intro h
    induction ts generalizing depth with
    | nil => exact Option.some.inj h ▸ .nil depth
    | cons t ts ih =>
      cases ht : Role.of s t with
      | opens => exact .opens ht (ih (by simpa only [leftOpen?, ht] using h))
      | closes =>
        cases depth with
        | zero => simp [leftOpen?, ht] at h
        | succ depth => exact .closes ht (ih (by simpa only [leftOpen?, ht] using h))
      | _ => exact .other (by simp [ht]) (by simp [ht]) (ih (by simpa only [leftOpen?, ht] using h))

instance : Decidable (LeavesOpen s depth ts n) := decidable_of_iff _ leavesOpen_iff.symm

/-- A level is open to the end of a list, or there is a parenthesis that closes it. -/
theorem exists_leavesOpen_or (s : Settings) (depth : Nat) (ts : List Term) :
    (∃ n, LeavesOpen s depth ts n) ∨
      ∃ inner close after, ts = inner ++ close :: after ∧ Role.of s close = .closes ∧
        LeavesOpen s depth inner 0 := by
  induction ts generalizing depth with
  | nil => exact Or.inl ⟨depth, .nil depth⟩
  | cons t ts ih =>
    have step (d : Nat) (hd : ∀ {us n}, LeavesOpen s d us n → LeavesOpen s depth (t :: us) n) :
        (∃ n, LeavesOpen s depth (t :: ts) n) ∨
          ∃ inner close after, t :: ts = inner ++ close :: after ∧ Role.of s close = .closes ∧
            LeavesOpen s depth inner 0 := by
      refine (ih d).imp (fun ⟨n, h⟩ => ⟨n, hd h⟩) ?_
      rintro ⟨inner, close, after, rfl, hclose, hinner⟩
      exact ⟨t :: inner, close, after, rfl, hclose, hd hinner⟩
    by_cases hopens : Role.of s t = .opens
    · exact step (depth + 1) (.opens hopens)
    by_cases hcloses : Role.of s t = .closes
    · cases depth with
      | zero => exact Or.inr ⟨[], t, ts, rfl, hcloses, .nil 0⟩
      | succ depth => exact step depth (.closes hcloses)
    · exact step depth (.other hopens hcloses)

/-! ## Behind a level -/

theorem behind_opens (ht : Role.of s t = .opens) (depth : Nat) (ts : List Term) :
    behind s depth (t :: ts) = behind s (depth + 1) ts := by
  simp only [behind, ht]

theorem behind_closes (ht : Role.of s t = .closes) (ts : List Term) : behind s 0 (t :: ts) = ts := by
  simp only [behind, ht]

theorem behind_closes_succ (ht : Role.of s t = .closes) (depth : Nat) (ts : List Term) :
    behind s (depth + 1) (t :: ts) = behind s depth ts := by
  simp only [behind, ht]

theorem behind_other (hopens : Role.of s t ≠ .opens) (hcloses : Role.of s t ≠ .closes) (depth : Nat)
    (ts : List Term) : behind s depth (t :: ts) = behind s depth ts := by
  cases ht : Role.of s t with
  | opens => contradiction
  | closes => contradiction
  | _ => simp only [behind, ht]

/-- Nothing is behind a level that is not closed. -/
theorem LeavesOpen.behind_eq_nil (h : LeavesOpen s depth ts n) : behind s depth ts = [] := by
  induction h with
  | nil depth => rfl
  | opens ht _ ih => exact (behind_opens ht _ _).trans ih
  | closes ht _ ih => exact (behind_closes_succ ht _ _).trans ih
  | other hopens hcloses _ ih => exact (behind_other hopens hcloses _ _).trans ih

theorem LeavesOpen.behind_append_closes {close : Term} (h : LeavesOpen s depth ts n)
    (hn : n = 0) (hclose : Role.of s close = .closes) (after : List Term) :
    behind s depth (ts ++ close :: after) = after := by
  induction h with
  | nil depth =>
    subst hn
    exact behind_closes hclose after
  | opens ht _ ih => exact (behind_opens ht _ _).trans (ih hn)
  | closes ht _ ih => exact (behind_closes_succ ht _ _).trans (ih hn)
  | other hopens hcloses _ ih => exact (behind_other hopens hcloses _ _).trans (ih hn)

/-! ## Items -/

namespace Item

theorem read_opens (ht : Role.of s t = .opens) (level : List Item) (outer : List (List Item))
    (ts : List Term) : read s level outer (t :: ts) = read.count (read s [] (level :: outer) ts) := by
  simp only [read, Mark.ofTerm_eq, ht, Role.mark]

theorem read_closes (ht : Role.of s t = .closes) (level : List Item) (ts : List Term) :
    read s level [] (t :: ts) = (level, 0) := by
  simp only [read, Mark.ofTerm_eq, ht, Role.mark]

theorem read_closes_cons (ht : Role.of s t = .closes) (level next : List Item)
    (outer : List (List Item)) (ts : List Term) :
    read s level (next :: outer) (t :: ts) =
      read.count (read s (next ++ [.level level]) outer ts) := by
  simp only [read, Mark.ofTerm_eq, ht, Role.mark]

theorem read_other (hopens : Role.of s t ≠ .opens) (hcloses : Role.of s t ≠ .closes)
    (level : List Item) (outer : List (List Item)) :
    ∃ level', ∀ ts, read s level outer (t :: ts) = read.count (read s level' outer ts) := by
  have hmark : Mark.ofTerm s t = .stopWord ∨ ∃ i, Mark.ofTerm s t = .item i := by
    rw [Mark.ofTerm_eq]
    cases ht : Role.of s t with
    | opens => contradiction
    | closes => contradiction
    | skipped => exact Or.inl rfl
    | _ => exact Or.inr ⟨_, rfl⟩
  obtain hmark | ⟨i, hmark⟩ := hmark
  · exact ⟨level, fun ts => by simp only [read, hmark]⟩
  · exact ⟨level ++ [i], fun ts => by simp only [read, hmark]⟩

/-- Items are read up to the parenthesis that closes their level. -/
theorem read_append_closes {close : Term} (h : LeavesOpen s depth ts n) (hn : n = 0)
    (hclose : Role.of s close = .closes) (level : List Item) {outer : List (List Item)}
    (hdepth : outer.length = depth) (after : List Term) :
    read s level outer (ts ++ close :: after) = read s level outer ts := by
  induction h generalizing level outer with
  | nil depth =>
    obtain rfl := List.length_eq_zero_iff.1 (hdepth.trans hn)
    exact read_closes hclose level after
  | opens ht _ ih =>
    rw [List.cons_append, read_opens ht, read_opens ht, ih hn _ (congrArg (· + 1) hdepth)]
  | closes ht _ ih =>
    cases outer with
    | nil => contradiction
    | cons next outer =>
      rw [List.cons_append, read_closes_cons ht, read_closes_cons ht, ih hn _ (Nat.succ.inj hdepth)]
  | other hopens hcloses _ ih =>
    obtain ⟨level', hlevel⟩ := read_other hopens hcloses level outer
    rw [List.cons_append, hlevel, hlevel, ih hn _ hdepth]

theorem all_append_closes {close : Term} (h : LeavesOpen s 0 ts 0) (hclose : Role.of s close = .closes)
    (after : List Term) : all s (ts ++ close :: after) = all s ts :=
  congrArg Prod.fst (read_append_closes h rfl hclose [] rfl after)

/-- A list is read to its end, and one more term for each level that is open there. -/
theorem read_snd_eq (h : LeavesOpen s depth ts n) (level : List Item) {outer : List (List Item)}
    (hdepth : outer.length = depth) :
    (read s level outer ts).2 = ts.length + n := by
  induction h generalizing level outer with
  | nil depth => simpa [read] using hdepth
  | @opens t ts _ n ht _ ih =>
    rw [read_opens ht, read.count, ih _ (congrArg (· + 1) hdepth), List.length_cons]
    exact Nat.add_right_comm ts.length n 1
  | @closes t ts _ n ht _ ih =>
    cases outer with
    | nil => contradiction
    | cons next outer =>
      rw [read_closes_cons ht, read.count, ih _ (Nat.succ.inj hdepth), List.length_cons]
      exact Nat.add_right_comm ts.length n 1
  | @other t ts _ n hopens hcloses _ ih =>
    obtain ⟨level', hlevel⟩ := read_other hopens hcloses level outer
    rw [hlevel, read.count, ih _ hdepth, List.length_cons]
    exact Nat.add_right_comm ts.length n 1

end Item

/-! ## Contexts -/

/-- The context that a term sets for the terms after it. -/
def Term.context? : Term → Option ResourceContext
  | types _ (u :: _) => some (.ofType u)
  | _ => none

theorem after_eq (c : ResourceContext) (t : Term) : c.after t = t.context?.getD c := by
  cases t with
  | types _ us => cases us <;> rfl
  | _ => rfl

/-- Words set no context. -/
theorem context?_eq_none (ht : Role.of s t ≠ .plain) : t.context? = none := by
  cases t with
  | types span us => exact absurd rfl ht
  | _ => rfl

/-- The context behind some terms, the last of which comes first, in the level that is so many levels
further out : that of the nearest term of the level that sets one, general if there is none. -/
def contextBefore (s : Settings) : (depth : Nat) → List Term → ResourceContext
  | _, [] => .general
  | depth, t :: before =>
    match Role.of s t, depth with
    | .closes, depth => contextBefore s (depth + 1) before
    | .opens, 0 => .general
    | .opens, depth + 1 => contextBefore s depth before
    | _, 0 => t.context?.getD (contextBefore s 0 before)
    | _, depth + 1 => contextBefore s (depth + 1) before

theorem contextBefore_opens (ht : Role.of s t = .opens) (before : List Term) :
    contextBefore s 0 (t :: before) = .general := by
  simp only [contextBefore, ht]

theorem contextBefore_opens_succ (ht : Role.of s t = .opens) (depth : Nat) (before : List Term) :
    contextBefore s (depth + 1) (t :: before) = contextBefore s depth before := by
  simp only [contextBefore, ht]

theorem contextBefore_closes (ht : Role.of s t = .closes) (depth : Nat) (before : List Term) :
    contextBefore s depth (t :: before) = contextBefore s (depth + 1) before := by
  simp only [contextBefore, ht]

theorem contextBefore_other (hopens : Role.of s t ≠ .opens) (hcloses : Role.of s t ≠ .closes)
    (before : List Term) :
    contextBefore s 0 (t :: before) = t.context?.getD (contextBefore s 0 before) := by
  cases ht : Role.of s t with
  | opens => contradiction
  | closes => contradiction
  | _ => simp only [contextBefore, ht]

theorem contextBefore_other_succ (hopens : Role.of s t ≠ .opens) (hcloses : Role.of s t ≠ .closes)
    (depth : Nat) (before : List Term) :
    contextBefore s (depth + 1) (t :: before) = contextBefore s (depth + 1) before := by
  cases ht : Role.of s t with
  | opens => contradiction
  | closes => contradiction
  | _ => simp only [contextBefore, ht]

/-- Terms change the context of the level that they end in and leave those around it as they are. -/
theorem LeavesOpen.contextBefore_append (h : LeavesOpen s depth ts n) (k : Nat)
    (before : List Term) :
    contextBefore s (k + 1 + n) (ts.reverse ++ before) = contextBefore s (k + 1 + depth) before := by
  induction h generalizing before with
  | nil depth => rfl
  | opens ht _ ih =>
    rw [List.reverse_cons, List.append_assoc, List.singleton_append, ih, ← Nat.add_assoc,
      contextBefore_opens_succ ht]
  | closes ht _ ih =>
    rw [List.reverse_cons, List.append_assoc, List.singleton_append, ih,
      contextBefore_closes ht, Nat.add_assoc]
  | other hopens hcloses _ ih =>
    rw [List.reverse_cons, List.append_assoc, List.singleton_append, ih, Nat.add_right_comm,
      contextBefore_other_succ hopens hcloses]

/-- Behind a level the contexts are what they were in front of it. -/
theorem contextBefore_level {opening close : Term} (hopens : Role.of s opening = .opens)
    (hcloses : Role.of s close = .closes) (h : LeavesOpen s 0 ts 0) (depth : Nat)
    (before : List Term) :
    contextBefore s depth (close :: (ts.reverse ++ opening :: before)) =
      contextBefore s depth before := by
  have happend := h.contextBefore_append depth (opening :: before)
  rw [contextBefore_closes hcloses]
  exact happend.trans (contextBefore_opens_succ hopens depth before)

end DesktopSearch
