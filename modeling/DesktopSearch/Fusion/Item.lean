import DesktopSearch.Settings.Basic
import DesktopSearch.Term.Basic

/-!
# Items

A list of terms with words like "or" and parentheses among them is read as a list of items: operators,
terms, and nested levels. `Item.ofTerms` reads the items up to the end of the list, where open levels end
too, or up to a parenthesis that closes nothing, and tells where it stopped. Stop words are left out.
-/

namespace DesktopSearch

/-- What a level of a query is made of. -/
inductive Item where
  | or
  | and
  /-- A negation of the next item, at a place of the input. -/
  | not (span : Span)
  | term (t : Term)
  /-- What stands between parentheses. -/
  | level (items : List Item)

/-- What a term is in a list of terms. -/
inductive Mark where
  | item (i : Item)
  | stopWord
  | opens
  | closes

/-- Whether a word is too short to search for. -/
def Settings.isStopWord (s : Settings) (word : String) : Bool :=
  s.wordsSeparatedBySpaces && decide (word.length ≤ s.stopWordLength)

/-- What a word at a place of the input is. -/
def Mark.ofWord (s : Settings) (t : Term) (word : String) : Mark :=
  let name := Text.lower word
  if name = s.orKeyword then .item .or
  else if name = s.andKeyword ∨ name = "+" then .item .and
  else if name = s.notKeyword ∨ name = "!" ∨ name = "-" then .item (.not t.span)
  else if name = "(" then .opens
  else if name = ")" then .closes
  else if s.isStopWord word then .stopWord
  else .item (.term t)

/-- What a term is. -/
def Mark.ofTerm (s : Settings) (t : Term) : Mark :=
  match t.string? with
  | some word => .ofWord s t word
  | none => .item (.term t)

namespace Item

/-- The items of a list, the last of which is a level that ends with the list. -/
def closeAll (level : List Item) : List (List Item) → List Item
  | [] => level
  | outer :: rest => closeAll (outer ++ [.level level]) rest

/-- The items of a list of terms, after those of the current level and with the levels around it, the
innermost first; and how far it was read. A level that ends with the list counts as closed by one more
term. -/
def read (s : Settings) (level : List Item) (outer : List (List Item)) :
    List Term → List Item × Nat
  | [] => (closeAll level outer, outer.length)
  | t :: ts =>
    match Mark.ofTerm s t with
    | .item i => count (read s (level ++ [i]) outer ts)
    | .stopWord => count (read s level outer ts)
    | .opens => count (read s [] (level :: outer) ts)
    | .closes =>
      match outer with
      | [] => (level, 0)
      | next :: outer => count (read s (next ++ [.level level]) outer ts)
where
  /-- One more term was read. -/
  count (r : List Item × Nat) : List Item × Nat := (r.1, r.2 + 1)

/-- The items of a list of terms, and how far it was read. -/
def ofTerms (s : Settings) (ts : List Term) : List Item × Nat := read s [] [] ts

end Item

end DesktopSearch
