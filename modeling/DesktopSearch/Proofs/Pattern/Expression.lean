import DesktopSearch.Pattern.Basic
import DesktopSearch.Proofs.Text.Regexp

/-!
# Expressions of keywords

An `Expression` is the syntax tree of a keyword that stands for words : alternatives, each of them a
`Branch` of characters and of groups in parentheses. Reading the text of an expression gives a keyword that
stands for the words of the expression, each of them as a whole (`Part.read?_text`), so that it accepts a
text exactly if that is one of these words apart from case (`Expression.accepts_iff`).

Other expressions are read by other engines. Where an engine `Follows` the syntax trees of its expressions, a
keyword accepts the texts that the tree matches from end to end (`Part.read?_of_follows`).
-/

namespace DesktopSearch.Keyword

/-- The character stands for itself. -/
structure IsPlain (c : Char) : Prop where
  escape : c ≠ '\\'
  bar : c ≠ '|'
  opening : c ≠ '('
  closing : c ≠ ')'
  operator : isOperator c = false

mutual

/-- Alternatives, of which there is one at least. -/
inductive Expression where
  | single (b : Branch)
  | either (b : Branch) (e : Expression)

/-- One alternative. -/
inductive Branch where
  | empty
  | cons (a : Atom) (b : Branch)

/-- A character, written as itself or behind a backslash, or a group. -/
inductive Atom where
  | plain (c : Char) (h : IsPlain c)
  | escaped (c : Char) (h : isEscapable c = true)
  | group (e : Expression)

end

mutual

/-- The text of an expression. -/
def Expression.text : Expression → List Char
  | .single b => b.text
  | .either b e => b.text ++ '|' :: e.text

/-- The text of an alternative. -/
def Branch.text : Branch → List Char
  | .empty => []
  | .cons a b => a.text ++ b.text

/-- The text of an atom. -/
def Atom.text : Atom → List Char
  | .plain c _ => [c]
  | .escaped c _ => ['\\', c]
  | .group e => '(' :: (e.text ++ [')'])

end

mutual

/-- The words that an expression stands for. -/
def Expression.words : Expression → List (List Char)
  | .single b => b.words
  | .either b e => b.words ++ e.words

/-- The words that an alternative stands for. -/
def Branch.words : Branch → List (List Char)
  | .empty => [[]]
  | .cons a b => a.words.flatMap fun u => b.words.map (u ++ ·)

/-- The words that an atom stands for. -/
def Atom.words : Atom → List (List Char)
  | .plain c _ => [[c]]
  | .escaped c _ => [[c]]
  | .group e => e.words

end

/-! ## Levels -/

namespace Level

theorem follow_nil (l : Level) : l.follow [[]] = l := by
  simp [follow]

theorem follow_follow (l : Level) (us vs : List (List Char)) :
    (l.follow us).follow vs = l.follow (us.flatMap fun u => vs.map (u ++ ·)) := by
  simp [follow, List.flatMap_assoc, List.flatMap_map, List.map_flatMap, Function.comp_def]

/-- The level after an expression. -/
def followExpression (l : Level) : Expression → Level
  | .single b => l.follow b.words
  | .either b e => (l.follow b.words).alternative.followExpression e

/-- A level in which the current alternative has just started has the words of the expression. -/
theorem words_followExpression (finished : List (List Char)) (e : Expression) :
    (followExpression ⟨finished, [[]]⟩ e).words = finished ++ e.words := by
  match e with
  | .single b => simp [followExpression, follow, words, Expression.words]
  | .either b e =>
    rw [followExpression, alternative, words_followExpression, Expression.words]
    simp [follow, words]

end Level

/-! ## How texts start -/

mutual

/-- The first character of a text has a meaning that it gives it or none, so it is no operator. -/
theorem Expression.isOperator_of_mem_head? :
    ∀ (e : Expression) {c : Char}, c ∈ e.text.head? → isOperator c = false
  | .single b, c, h => b.isOperator_of_mem_head? h
  | .either b e, c, h => by
    rw [Expression.text, List.head?_append] at h
    cases hb : b.text.head? with
    | none =>
      obtain rfl : '|' = c := by simpa [hb] using h
      decide
    | some d =>
      obtain rfl : d = c := by simpa [hb] using h
      exact b.isOperator_of_mem_head? hb

theorem Branch.isOperator_of_mem_head? :
    ∀ (b : Branch) {c : Char}, c ∈ b.text.head? → isOperator c = false
  | .empty, c, h => by simp [Branch.text] at h
  | .cons a b, c, h => by
    cases a with
    | plain d hd =>
      obtain rfl : d = c := by simpa [Branch.text, Atom.text] using h
      exact hd.operator
    | escaped d hd =>
      obtain rfl : '\\' = c := by simpa [Branch.text, Atom.text] using h
      decide
    | group e =>
      obtain rfl : '(' = c := by simpa [Branch.text, Atom.text] using h
      decide

end

/-! ## Reading the text -/

section Reading

variable {atStart : Bool} {outside inner : Level} {outer : List Level}

theorem readLevels?_plain {c : Char} (h : IsPlain c) (rest : List Char) :
    readLevels? atStart outside (inner :: outer) (c :: rest) =
      readLevels? atStart outside (inner.addChar c :: outer) rest := by
  cases outer <;> simp [readLevels?, h.escape, h.opening, h.closing, h.bar, h.operator]

theorem readLevels?_opening {rest : List Char} (h : rest.head? ≠ some '?') :
    readLevels? atStart outside (inner :: outer) ('(' :: rest) =
      readLevels? atStart outside (.opened :: inner :: outer) rest := by
  cases outer <;> simp [readLevels?, h]

/-- The end of the group around an expression, and of the text. -/
theorem readLevels?_end (inner : Level) :
    readLevels? true outside [inner] [')', '$'] =
      some ((outside.follow inner.words).words.map (.whole, ·)) := by
  simp [readLevels?]

theorem readLevels?_closing (l : Level) (rest : List Char) :
    readLevels? atStart outside (l :: inner :: outer) (')' :: rest) =
      readLevels? atStart outside (inner.follow l.words :: outer) rest := by
  simp [readLevels?]

theorem readLevels?_bar (rest : List Char) :
    readLevels? atStart outside (inner :: outer) ('|' :: rest) =
      readLevels? atStart outside (inner.alternative :: outer) rest := by
  cases outer <;> simp [readLevels?]

end Reading

mutual

/-- Reading the text of an expression adds the expression to the innermost level. -/
theorem readLevels?_expression (atStart : Bool) (outside : Level) :
    ∀ (e : Expression) (inner : Level) (outer : List Level) (rest : List Char),
      readLevels? atStart outside (inner :: outer) (e.text ++ rest) =
        readLevels? atStart outside (inner.followExpression e :: outer) rest
  | .single b, inner, outer, rest => readLevels?_branch atStart outside b inner outer rest
  | .either b e, inner, outer, rest => by
    rw [Expression.text, List.append_assoc, readLevels?_branch, List.cons_append, readLevels?_bar,
      readLevels?_expression, Level.followExpression]

theorem readLevels?_branch (atStart : Bool) (outside : Level) :
    ∀ (b : Branch) (inner : Level) (outer : List Level) (rest : List Char),
      readLevels? atStart outside (inner :: outer) (b.text ++ rest) =
        readLevels? atStart outside (inner.follow b.words :: outer) rest
  | .empty, inner, outer, rest => by rw [Branch.text, Branch.words, Level.follow_nil, List.nil_append]
  | .cons a b, inner, outer, rest => by
    rw [Branch.text, List.append_assoc, readLevels?_atom, readLevels?_branch, Level.follow_follow,
      Branch.words]

theorem readLevels?_atom (atStart : Bool) (outside : Level) :
    ∀ (a : Atom) (inner : Level) (outer : List Level) (rest : List Char),
      readLevels? atStart outside (inner :: outer) (a.text ++ rest) =
        readLevels? atStart outside (inner.follow a.words :: outer) rest
  | .plain c h, inner, outer, rest => readLevels?_plain h rest
  | .escaped c h, inner, outer, rest => by
    rw [Atom.text, List.cons_append, List.singleton_append, readLevels?, if_pos h, Atom.words,
      Level.addChar]
  | .group e, inner, outer, rest => by
    have hhead : (e.text ++ ([')'] ++ rest)).head? ≠ some '?' := by
      rw [List.head?_append]
      cases he : e.text.head? with
      | none => simp
      | some c =>
        rintro ⟨⟩
        exact absurd (e.isOperator_of_mem_head? he) (by decide)
    rw [Atom.text, List.cons_append, List.append_assoc, readLevels?_opening hhead,
      readLevels?_expression, List.singleton_append, readLevels?_closing, Level.opened,
      Level.words_followExpression, List.nil_append, Atom.words]

end

/-! ## The keyword of an expression -/

namespace Expression

variable (e : Expression)

/-- The keyword that an expression writes. -/
def keyword : Keyword := .ofWords (e.words.map (.whole, ·))

theorem read?_text : read? (anchored e.text) = some e.keyword := by
  have hlevels : readLevels? true .opened [.opened] (e.text ++ [')', '$']) =
      some (e.words.map (.whole, ·)) := by
    rw [readLevels?_expression, readLevels?_end, Level.opened, Level.words_followExpression]
    simp [Level.follow, Level.words]
  rw [anchored, read?, hlevels, Option.map_some, keyword]

/-- A keyword accepts what is one of its words, as a whole and apart from case. -/
theorem accepts_iff (text : String) : e.keyword.accepts text = true ↔
    ∃ word ∈ e.words, word.map Text.fold = text.toList.map Text.fold := by
  simp [keyword, ofWords, Place.holds]

end Expression

end DesktopSearch.Keyword

namespace DesktopSearch

/-- The engine knows what expressions mean : an expression with a syntax tree is read, and with its anchors
it is found in a text where the tree stands between the start and the end of the text, apart from case. -/
def Keyword.Engine.Follows (engine : Keyword.Engine) (tree? : List Char → Option Regexp) : Prop :=
  ∀ cs e, tree? cs = some e → ∃ k, engine (Keyword.anchored cs) = some k ∧ ∀ text : String,
    k.accepts text = true ↔ (Regexp.seq [.start, e, .finish]).FoundIn Text.fold text.toList

/-- A word that is no run and names no slot is read by the engine, as a whole text and apart from case. -/
theorem Part.read?_of_slot?_eq_none (engine : Keyword.Engine) {word : String} (hrun : word ≠ "...")
    (hslot : slot? word.toList = none) :
    read? engine word = (engine (Keyword.anchored word.toList)).map .keyword := by
  rw [read?, if_neg hrun, hslot]

/-- A keyword accepts what its expression matches as a whole. -/
theorem Part.read?_of_follows {engine : Keyword.Engine} {tree? : List Char → Option Regexp}
    (hengine : engine.Follows tree?) {word : String} (hrun : word ≠ "...")
    (hslot : slot? word.toList = none) {e : Regexp} (he : tree? word.toList = some e) :
    ∃ k, read? engine word = some (.keyword k) ∧
      ∀ text : String, k.accepts text = true ↔ e.Matches Text.fold [] text.toList [] := by
  obtain ⟨k, hk, haccepts⟩ := hengine word.toList e he
  refine ⟨k, ?_, fun text => ?_⟩
  · rw [read?_of_slot?_eq_none engine hrun hslot, hk]
    rfl
  · rw [haccepts, Regexp.foundIn_anchored_iff]

/-- A part of a pattern that is written as an expression is its keyword, unless it names a slot. -/
theorem Part.read?_text (e : Keyword.Expression) (h : slot? e.text = none) :
    read? Keyword.read? (String.ofList e.text) = some (.keyword e.keyword) := by
  have hrun : String.ofList e.text ≠ "..." := by
    intro heq
    have htext : e.text = ['.', '.', '.'] := by simpa using congrArg String.toList heq
    have hpoint := e.isOperator_of_mem_head? (c := '.') (by rw [htext]; rfl)
    exact absurd hpoint (by decide)
  rw [read?_of_slot?_eq_none _ hrun (by rwa [String.toList_ofList]), String.toList_ofList, e.read?_text]
  rfl

end DesktopSearch
