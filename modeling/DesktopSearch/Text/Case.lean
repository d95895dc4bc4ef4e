import DesktopSearch.Text.CaseTable
import DesktopSearch.Text.LetterTable

/-!
# Letter case

`lower` writes a text in lower case, letter by letter and with the two exceptions Unicode makes: a
dotted capital I keeps its dot as a mark of its own, and a capital sigma is written as a final one
at the end of a word. `fold` maps a character to the representative of all characters that differ
from it in case only; keywords are compared by it.
-/

namespace DesktopSearch.Text

/-- Whether the first character that is not ignored has a case. -/
def startsCased (cs : List Char) : Bool :=
  match cs.dropWhile (fun c => inRanges caseIgnorableRanges c.toNat) with
  | c :: _ => inRanges casedRanges c.toNat
  | [] => false

/-- The lower-case form of a single character, given the characters before it (the nearest first)
and after it. -/
def lowerChar (before : List Char) (c : Char) (after : List Char) : List Char :=
  if c.toNat < 0x80 then [c.toLower]
  else if c = 'İ' then ['i', '\u0307']
  else if c = 'Σ' then
    if startsCased before && !startsCased after then ['ς'] else ['σ']
  else [moveBy lowerRuns c]

/-- Lower case of a text that follows `before`, whose nearest character comes first. -/
def lowerAfter (before : List Char) : List Char → List Char
  | [] => []
  | c :: cs => lowerChar before c cs ++ lowerAfter (c :: before) cs

/-- A text in lower case. -/
def lower (s : String) : String :=
  String.ofList (lowerAfter [] s.toList)

/-- The representative of the characters that differ from `c` in case only. -/
def fold (c : Char) : Char :=
  if c.toNat < 0x80 then c.toLower else moveBy foldRuns c

end DesktopSearch.Text
