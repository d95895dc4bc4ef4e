import DesktopSearch.Settings.Basic
import DesktopSearch.Term.Basic

/-!
# Tokens

`tokenize` cuts a text into literals. A token is a quotation between double quotes, without them; a
separator, or any character in a language that writes no blanks between words; or a word, which runs up
to a blank, a double quote or a separator. The span of a token covers its quotes too. The last quotation
need not be closed, and empty quotations are left out.
-/

namespace DesktopSearch

/-- Whether a character is a token of its own. -/
def Settings.standsAlone (s : Settings) (c : Char) : Bool :=
  s.isSeparator c || !s.wordsSeparatedBySpaces

/-- Whether a character can be part of a word. -/
def Settings.isWordChar (s : Settings) (c : Char) : Bool :=
  c != '"' && !Text.isBlank c && !s.standsAlone c

namespace Token

/-- A literal for a text with the given span. -/
def term (start length : Nat) (text : List Char) : Term :=
  .literal ⟨start, length⟩ (.string (String.ofList text))

/-- The tokens of a text that starts at a place of the input. -/
def read (s : Settings) (place : Nat) : List Char → List Term
  | [] => []
  | c :: cs =>
    if c = '"' then
      let text := cs.takeWhile (· != '"')
      let rest := cs.dropWhile (· != '"')
      let length := 1 + text.length + min 1 rest.length
      let tokens := read s (place + length) (rest.drop 1)
      if text.isEmpty then tokens else term place length text :: tokens
    else if Text.isBlank c then read s (place + 1) cs
    else if s.standsAlone c then term place 1 [c] :: read s (place + 1) cs
    else
      let more := cs.takeWhile s.isWordChar
      let length := 1 + more.length
      term place length (c :: more) :: read s (place + length) (cs.dropWhile s.isWordChar)
termination_by cs => cs.length
decreasing_by
  all_goals simp only [List.length_cons, List.length_drop]
  · have := (List.dropWhile_sublist (l := cs) (· != '"')).length_le
    omega
  · omega
  · omega
  · have := (List.dropWhile_sublist (l := cs) s.isWordChar).length_le
    omega

end Token

/-- The tokens of a text. -/
def tokenize (s : Settings) (text : String) : List Term := Token.read s 0 text.toList

end DesktopSearch
