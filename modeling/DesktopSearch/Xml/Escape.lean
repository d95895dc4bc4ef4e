import DesktopSearch.Text.Digit

/-!
# Character references

Five characters are written as references in the text and the attributes of an element (`escape`);
`unescape?` reads these and references by character number, and refuses every other ampersand.
-/

namespace DesktopSearch.Xml

/-- One character in the text of an element. -/
def escapeChar (c : Char) : List Char :=
  if c = '<' then "&lt;".toList
  else if c = '>' then "&gt;".toList
  else if c = '&' then "&amp;".toList
  else if c = '\'' then "&apos;".toList
  else if c = '"' then "&quot;".toList
  else [c]

/-- A text as the content or an attribute value of an element. -/
def escape (cs : List Char) : List Char :=
  cs.flatMap escapeChar

/-- The value of a hexadecimal digit. -/
def hexDigit? (c : Char) : Option Nat :=
  if c.isDigit then some (c.toNat - '0'.toNat)
  else if 'a' ≤ c ∧ c ≤ 'f' then some (c.toNat - 'a'.toNat + 10)
  else if 'A' ≤ c ∧ c ≤ 'F' then some (c.toNat - 'A'.toNat + 10)
  else none

/-- The number that hexadecimal digits spell. -/
def hexValue? (cs : List Char) : Option Nat :=
  if cs.isEmpty then none
  else cs.foldl (fun n c => n.bind fun n => (hexDigit? c).map fun d => 16 * n + d) (some 0)

/-- The character with a number, other than the one numbered zero. -/
def charWithNumber? (n : Nat) : Option Char :=
  if n ≠ 0 ∧ n.isValidChar then some (Char.ofNat n) else none

/-- The character that a reference names; `name` is what stands between ampersand and semicolon. -/
def resolve? (name : List Char) : Option Char :=
  match name with
  | '#' :: 'x' :: digits => (hexValue? digits).bind charWithNumber?
  | '#' :: digits => (Text.readDigits? digits).bind charWithNumber?
  | _ =>
    match String.ofList name with
    | "lt" => some '<'
    | "gt" => some '>'
    | "amp" => some '&'
    | "apos" => some '\''
    | "quot" => some '"'
    | _ => none

/-- Decodes a text, given what was read of an open reference (the nearest character first). -/
def unescapeFrom (reference : Option (List Char)) : List Char → Option (List Char)
  | [] => if reference.isSome then none else some []
  | c :: cs =>
    match reference with
    | none =>
      if c = '&' then unescapeFrom (some []) cs
      else (unescapeFrom none cs).map (c :: ·)
    | some name =>
      if c = ';' then
        (resolve? name.reverse).bind fun d => (unescapeFrom none cs).map (d :: ·)
      else if c = '&' then none
      else unescapeFrom (some (c :: name)) cs

/-- The text that is written with references. -/
def unescape? (cs : List Char) : Option (List Char) :=
  unescapeFrom none cs

end DesktopSearch.Xml
