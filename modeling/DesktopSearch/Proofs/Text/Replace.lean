import DesktopSearch.Text.Replace
import Mathlib.Data.List.Basic

/-!
# Replacing in escaped texts

Replacing a character with a backslash before it reads a text from the left and knows nothing of the pieces
that the text is made of. It replaces the pieces that are written so, and nothing else, provided that no
backslash stands anywhere but at the start of a piece of two characters, and that no piece starts with the
character itself (`replace_flatten`, `replace_flatMap`) : what follows a backslash at the end of a piece is
then the start of another one.
-/

namespace DesktopSearch.Text

/-! ## Steps from the left -/

section

variable {old new cs rest : List Char}

theorem length_of_after? (h : after? old cs = some rest) : old.length + rest.length = cs.length := by
  obtain ⟨hstart, hrest⟩ := Option.ite_none_right_eq_some.1 h
  obtain rfl := Option.some.inj hrest
  have hle := (List.isPrefixOf_iff_prefix.1 hstart).length_le
  rw [List.length_drop, Nat.add_sub_cancel' hle]

/-- The bound is large enough if it is the length of the text. -/
theorem replaceWithin_eq (hold : old ≠ []) {m n : Nat} (hm : cs.length ≤ m) (hn : cs.length ≤ n) :
    replaceWithin old new m cs = replaceWithin old new n cs := by
  induction m generalizing n cs with
  | zero =>
    obtain rfl := List.length_eq_zero_iff.1 (Nat.le_zero.1 hm)
    cases n <;> rfl
  | succ m ih =>
    cases cs with
    | nil => cases n <;> rfl
    | cons c cs =>
      obtain ⟨n, rfl⟩ := Nat.exists_eq_succ_of_ne_zero (Nat.ne_zero_of_lt hn)
      rw [List.length_cons, Nat.add_le_add_iff_right] at hm hn
      rw [replaceWithin, replaceWithin]
      cases hafter : after? old (c :: cs) with
      | none => exact congrArg (c :: ·) (ih hm hn)
      | some rest =>
        have hlength := length_of_after? hafter
        have hpos := List.length_pos_iff.2 hold
        rw [List.length_cons] at hlength
        exact congrArg (new ++ ·) (ih (by omega) (by omega))

theorem replace_cons_of_none {c : Char} (h : after? old (c :: cs) = none) :
    replace old new (c :: cs) = c :: replace old new cs := by
  rw [replace, List.length_cons, replaceWithin, h]
  rfl

theorem replace_append (hold : old ≠ []) (rest : List Char) :
    replace old new (old ++ rest) = new ++ replace old new rest := by
  have hafter : after? old (old ++ rest) = some rest := by
    rw [after?, if_pos (List.isPrefixOf_iff_prefix.2 (List.prefix_append ..)), List.drop_left]
  obtain ⟨c, cs, rfl⟩ := List.exists_cons_of_ne_nil hold
  rw [List.cons_append] at hafter ⊢
  rw [replace, List.length_cons, replaceWithin, hafter]
  refine congrArg (new ++ ·) (replaceWithin_eq hold ?_ (Nat.le_refl _))
  rw [List.length_append]
  exact Nat.le_add_left ..

end

/-! ## Pieces -/

/-- A backslash and a character, or no backslash and the character `mark` not in front. -/
def IsPiece (mark : Char) (p : List Char) : Prop :=
  (∃ c, p = ['\\', c]) ∨ ('\\' ∉ p ∧ p.head? ≠ some mark)

variable {mark : Char} {new : List Char}

theorem replace_append_of_notMem {p : List Char} (hp : '\\' ∉ p) (rest : List Char) :
    replace ['\\', mark] new (p ++ rest) = p ++ replace ['\\', mark] new rest := by
  induction p with
  | nil => rfl
  | cons c p ih =>
    rw [List.mem_cons, not_or] at hp
    rw [List.cons_append, replace_cons_of_none, ih hp.2, List.cons_append]
    simp [after?, hp.1]

/-- No text of pieces starts with the character that is replaced behind a backslash. -/
theorem head?_flatten_ne (hmark : mark ≠ '\\') {ps : List (List Char)} (hps : ∀ p ∈ ps, IsPiece mark p) :
    ps.flatten.head? ≠ some mark := by
  induction ps with
  | nil => simp
  | cons p ps ih =>
    rw [List.forall_mem_cons] at hps
    obtain ⟨c, rfl⟩ | ⟨-, hhead⟩ := hps.1
    · simpa using hmark.symm
    · cases p with
      | nil => exact ih hps.2
      | cons c p => simpa using hhead

/-- Of the pieces of a text those that are a backslash and the character are replaced. -/
theorem replace_flatten (hmark : mark ≠ '\\') {ps : List (List Char)} (hps : ∀ p ∈ ps, IsPiece mark p) :
    replace ['\\', mark] new ps.flatten =
      (ps.map fun p => if p = ['\\', mark] then new else p).flatten := by
  induction ps with
  | nil => rfl
  | cons p ps ih =>
    rw [List.forall_mem_cons] at hps
    rw [List.map_cons, List.flatten_cons, List.flatten_cons, ← ih hps.2]
    obtain ⟨c, rfl⟩ | ⟨hp, -⟩ := hps.1
    · by_cases hc : c = mark
      · rw [hc, if_pos rfl, replace_append (by simp)]
      · rw [if_neg (by simpa using hc)]
        have hfirst : after? ['\\', mark] ('\\' :: c :: ps.flatten) = none := by
          simp [after?, Ne.symm hc]
        -- `c` may be a backslash itself, but what follows it is no `mark`
        have hsecond : after? ['\\', mark] (c :: ps.flatten) = none := by
          have hhead := head?_flatten_ne hmark hps.2
          cases hrest : ps.flatten with
          | nil => simp [after?]
          | cons d rest =>
            rw [hrest] at hhead
            simp only [List.head?_cons, ne_eq, Option.some.injEq] at hhead
            simp [after?, Ne.symm hhead]
        rw [List.cons_append, List.singleton_append, replace_cons_of_none hfirst,
          replace_cons_of_none hsecond]
        rfl
    · rw [if_neg, replace_append_of_notMem hp]
      rintro rfl
      exact hp (List.mem_cons_self ..)

/-- The pieces may be what the characters of another text are written as. -/
theorem replace_flatMap (hmark : mark ≠ '\\') {piece : Char → List Char}
    (hpiece : ∀ c, IsPiece mark (piece c)) (cs : List Char) :
    replace ['\\', mark] new (cs.flatMap piece) =
      cs.flatMap fun c => if piece c = ['\\', mark] then new else piece c := by
  have hpieces : ∀ p ∈ cs.map piece, IsPiece mark p := by
    simpa using fun c _ => hpiece c
  rw [List.flatMap_def, replace_flatten hmark hpieces, List.map_map, List.flatMap_def]
  rfl

end DesktopSearch.Text
