import DesktopSearch.Text.Escape
import Mathlib.Algebra.Group.Nat.Even
import Mathlib.Data.List.Basic
import Mathlib.Data.List.Induction
import Mathlib.Tactic.SplitIfs

/-!
# Where a quoted text ends

Between quotes a backslash escapes the character behind it, so a quoted text ends at the first quote that
no backslash escapes (`afterQuote?`). What is written between double quotes ends at the quote behind it
(`afterQuote?_quote`) and is read back as it was (`unquote_quote`), whatever the text.

`escapeQuotes` escapes single quotes and leaves backslashes alone. Such a text ends at the quote behind it
exactly if it `KeepsQuotes` : none of its quotes, and not its end, stands behind an odd number of
backslashes (`afterQuote?_escapeQuotes_iff`).
-/

namespace DesktopSearch.Text

/-! ## Reading -/

/-- What stands behind the first quote that no backslash escapes. The first character may be escaped
itself. -/
def afterQuote? (q : Char) : (escaped : Bool) → List Char → Option (List Char)
  | _, [] => none
  | true, _ :: cs => afterQuote? q false cs
  | false, c :: cs =>
    if c = '\\' then afterQuote? q true cs
    else if c = q then some cs
    else afterQuote? q false cs

/-- What a character stands for behind a backslash. -/
def unescaped (c : Char) : Char :=
  if c = 'n' then '\n' else if c = 'r' then '\r' else if c = 't' then '\t' else c

/-- What a text between double quotes stands for. -/
def unquote : List Char → List Char
  | [] => []
  | '\\' :: c :: cs => unescaped c :: unquote cs
  | c :: cs => c :: unquote cs

theorem length_lt_of_afterQuote? {q : Char} {e : Bool} {cs rest : List Char}
    (h : afterQuote? q e cs = some rest) : rest.length < cs.length := by
  induction cs generalizing e with
  | nil => simp [afterQuote?] at h
  | cons c cs ih =>
    rw [List.length_cons]
    cases e with
    | true => exact Nat.lt_succ_of_lt (ih h)
    | false =>
      rw [afterQuote?] at h
      split_ifs at h
      · exact Nat.lt_succ_of_lt (ih h)
      · rw [Option.some.inj h]
        exact Nat.lt_succ_self _
      · exact Nat.lt_succ_of_lt (ih h)

/-! ## Double quotes -/

theorem unquote_quoteChar_append (c : Char) (cs : List Char) :
    unquote (quoteChar c ++ cs) = c :: unquote cs := by
  unfold quoteChar
  split_ifs with hbackslash hquote hn hr ht
  · rw [hbackslash]; rfl
  · rw [hquote]; rfl
  · rw [hn]; rfl
  · rw [hr]; rfl
  · rw [ht]; rfl
  · rw [List.singleton_append, unquote]
    rintro c' cs' rfl
    exact absurd rfl hbackslash

/-- Reading undoes writing. -/
theorem unquote_quote (cs : List Char) : unquote (quote cs) = cs := by
  induction cs with
  | nil => rfl
  | cons c cs ih => rw [quote, List.flatMap_cons, unquote_quoteChar_append, ← quote, ih]

theorem afterQuote?_quoteChar_append (c : Char) (cs : List Char) :
    afterQuote? '"' false (quoteChar c ++ cs) = afterQuote? '"' false cs := by
  unfold quoteChar
  split_ifs with hbackslash hquote
  · rfl
  · rfl
  · rfl
  · rfl
  · rfl
  · rw [List.singleton_append, afterQuote?, if_neg hbackslash, if_neg hquote]

/-- A text between double quotes ends at the quote behind it. -/
theorem afterQuote?_quote (cs rest : List Char) :
    afterQuote? '"' false (quote cs ++ '"' :: rest) = some rest := by
  induction cs with
  | nil => rfl
  | cons c cs ih =>
    rw [quote, List.flatMap_cons, List.append_assoc, afterQuote?_quoteChar_append, ← quote, ih]

/-- All double quotes of what is written are escaped. -/
theorem afterQuote?_quote_eq_none (cs : List Char) : afterQuote? '"' false (quote cs) = none := by
  induction cs with
  | nil => rfl
  | cons c cs ih => rw [quote, List.flatMap_cons, afterQuote?_quoteChar_append, ← quote, ih]

/-- Line ends and tabs are written as letters behind a backslash. -/
theorem notMem_quote {d : Char} (h : d = '\n' ∨ d = '\r' ∨ d = '\t') (cs : List Char) :
    d ∉ quote cs := by
  intro hd
  obtain ⟨c, -, hd⟩ := List.mem_flatMap.1 hd
  unfold quoteChar at hd
  split_ifs at hd
  case neg =>
    obtain rfl := List.mem_singleton.1 hd
    tauto
  all_goals rcases h with rfl | rfl | rfl <;> simp at hd

/-! ## Single quotes -/

/-- The text with a backslash in front of its single quotes, and nothing else escaped. -/
def escapeQuotes (cs : List Char) : List Char :=
  cs.flatMap fun c => if c = '\'' then ['\\', '\''] else [c]

/-- The number of backslashes that the text ends with. -/
def endBackslashes (cs : List Char) : Nat := (cs.reverse.takeWhile (· == '\\')).length

/-- No quote of the text, and not its end, stands behind an odd number of backslashes. -/
def KeepsQuotes (cs : List Char) : Prop :=
  ∀ front back, cs = front ++ back → (∀ c ∈ back.head?, c = '\'') → Even (endBackslashes front)

/-- Whether the character behind a text is escaped; the first character of the text may be. -/
def escapesNext (escaped : Bool) (cs : List Char) : Bool :=
  cs.foldl (fun e c => !e && c == '\\') escaped

theorem endBackslashes_concat (cs : List Char) (c : Char) :
    endBackslashes (cs ++ [c]) = if c = '\\' then endBackslashes cs + 1 else 0 := by
  rw [endBackslashes, List.reverse_append, List.reverse_singleton, List.singleton_append,
    List.takeWhile_cons]
  by_cases hc : c = '\\'
  · rw [hc]; rfl
  · rw [if_neg hc, if_neg (by simpa using hc)]; rfl

theorem escapesNext_eq_false_iff (cs : List Char) :
    escapesNext false cs = false ↔ Even (endBackslashes cs) := by
  induction cs using List.reverseRecOn with
  | nil => exact iff_of_true rfl Even.zero
  | append_singleton cs c ih =>
    rw [escapesNext, List.foldl_append, List.foldl_cons, List.foldl_nil, ← escapesNext,
      endBackslashes_concat]
    by_cases hc : c = '\\'
    · rw [if_pos hc, Nat.even_add_one, ← ih, hc]
      simp
    · rw [if_neg hc]
      simp [hc]

/-- The induction behind `afterQuote?_escapeQuotes_iff` : the scan may start behind a backslash. -/
theorem afterQuote?_escapeQuotes_append_iff (e : Bool) (cs rest : List Char) :
    afterQuote? '\'' e (escapeQuotes cs ++ '\'' :: rest) = some rest ↔
      ∀ front back, cs = front ++ back → (∀ c ∈ back.head?, c = '\'') →
        escapesNext e front = false := by
  induction cs generalizing e with
  | nil =>
    cases e with
    | true =>
      refine iff_of_false (fun h => ?_) fun h => ?_
      · exact absurd (length_lt_of_afterQuote? (e := false) h) (Nat.lt_irrefl _)
      · exact absurd (h [] [] rfl (by simp)) (by simp [escapesNext])
    | false =>
      refine iff_of_true rfl fun front back h _ => ?_
      rw [(List.append_eq_nil_iff.1 h.symm).1]
      rfl
  | cons c cs ih =>
    -- The text is cut in front of its first character, or behind it.
    have hcuts : (∀ front back, c :: cs = front ++ back → (∀ d ∈ back.head?, d = '\'') →
        escapesNext e front = false) ↔ (c = '\'' → e = false) ∧
          afterQuote? '\'' (!e && c == '\\') (escapeQuotes cs ++ '\'' :: rest) = some rest := by
      rw [ih]
      constructor
      · intro h
        refine ⟨fun hc => h [] (c :: cs) rfl (by simpa using hc), fun front back hcut hback => ?_⟩
        exact h (c :: front) back (by rw [hcut, List.cons_append]) hback
      · rintro ⟨hfirst, h⟩ front back hcut hback
        cases front with
        | nil =>
          rw [List.nil_append] at hcut
          exact hfirst (hback c (by rw [← hcut]; rfl))
        | cons d front =>
          rw [List.cons_append] at hcut
          obtain ⟨rfl, hrest⟩ := List.cons.inj hcut
          exact h front back hrest hback
    rw [hcuts, escapeQuotes, List.flatMap_cons, ← escapeQuotes]
    by_cases hquote : c = '\''
    · subst hquote
      cases e with
      | false => simp [afterQuote?]
      | true =>
        -- The backslash is escaped, so the quote of the text ends it.
        refine iff_of_false (fun h => ?_) fun h => by simpa using h.1
        have hlength : (escapeQuotes cs ++ '\'' :: rest).length = rest.length := by
          simpa [afterQuote?] using congrArg (Option.map List.length) h
        simp at hlength
        omega
    · rw [if_neg hquote, List.singleton_append]
      cases e with
      | true => simp [afterQuote?, hquote]
      | false =>
        by_cases hbackslash : c = '\\'
        · simp [afterQuote?, hbackslash]
        · simp [afterQuote?, hquote, hbackslash, beq_eq_false_iff_ne.2 hbackslash]

/-- A text with its quotes escaped ends at the quote behind it exactly if no quote of the text, and not its
end, stands behind an odd number of backslashes. -/
theorem afterQuote?_escapeQuotes_iff (cs rest : List Char) :
    afterQuote? '\'' false (escapeQuotes cs ++ '\'' :: rest) = some rest ↔ KeepsQuotes cs := by
  rw [afterQuote?_escapeQuotes_append_iff]
  exact forall₂_congr fun front back => imp_congr_right fun _ => imp_congr_right fun _ =>
    escapesNext_eq_false_iff front

/-- A text without backslashes keeps its quotes. -/
theorem keepsQuotes_of_notMem {cs : List Char} (h : '\\' ∉ cs) : KeepsQuotes cs := by
  intro front back hcut _
  rcases List.eq_nil_or_concat front with rfl | ⟨cs', c, rfl⟩
  · exact Even.zero
  · rw [List.concat_eq_append, endBackslashes_concat, if_neg]
    · exact Even.zero
    · rintro rfl
      exact h (by simp [hcut])

section

variable {cs : List Char} (h : '\'' ∉ cs)

include h

theorem escapeQuotes_eq_self : escapeQuotes cs = cs := by
  rw [escapeQuotes, List.flatMap_congr (g := fun c => [c]), List.flatMap_singleton']
  intro c hc
  rw [if_neg]
  rintro rfl
  exact h hc

/-- Of a text without quotes only the end matters. -/
theorem keepsQuotes_iff : KeepsQuotes cs ↔ Even (endBackslashes cs) := by
  constructor
  · exact fun hkeeps => hkeeps cs [] (by simp) (by simp)
  · intro heven front back hcut hback
    cases back with
    | nil => rwa [hcut, List.append_nil] at heven
    | cons c back =>
      rw [hcut, hback c rfl] at h
      simp at h

end

end DesktopSearch.Text
