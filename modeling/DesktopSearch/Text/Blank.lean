/-!
# Blanks

White space in the sense of Unicode, and what is done with it: cutting it off the ends of a text
(`trim`) and splitting a text into the words between it (`words`).
-/

namespace DesktopSearch.Text

/-- The characters that Unicode calls white space. -/
def isBlank (c : Char) : Bool :=
  let n := c.toNat
  (decide (9 ≤ n) && decide (n ≤ 13)) || n == 0x20 || n == 0x85 || n == 0xA0 || n == 0x1680 ||
    (decide (0x2000 ≤ n) && decide (n ≤ 0x200A)) || n == 0x2028 || n == 0x2029 || n == 0x202F ||
    n == 0x205F || n == 0x3000

/-- The text without the blanks at its end. -/
def trimEnd (cs : List Char) : List Char :=
  (cs.reverse.dropWhile isBlank).reverse

/-- The text without the blanks at both ends. -/
def trim (cs : List Char) : List Char :=
  trimEnd (cs.dropWhile isBlank)

/-- The pieces between the characters that satisfy `p`, empty pieces included. -/
def splitAt (p : Char → Bool) : List Char → List (List Char)
  | [] => [[]]
  | c :: cs =>
    if p c then [] :: splitAt p cs
    else
      match splitAt p cs with
      | [] => [[c]]
      | piece :: pieces => (c :: piece) :: pieces

/-- The non-empty pieces between blanks. -/
def words (cs : List Char) : List (List Char) :=
  (splitAt isBlank cs).filter (!·.isEmpty)

end DesktopSearch.Text
