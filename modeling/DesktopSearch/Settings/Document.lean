import DesktopSearch.Number.Decimal

/-!
# Documents

The nested data that settings are written in. `Document.read?` first cuts a text into tokens, then
hands the tokens one by one to `Progress.next?`, which holds the containers that are still open.

A number is kept to 64 bits: the digits that would make its significand larger are not read, and the
significand is scaled by a power of ten afterwards, each step rounded to a double. Integers that fit
into 64 bits, with a sign or without one, stay integers.
-/

namespace DesktopSearch

/-- A value of a document. -/
inductive Document where
  | null
  | boolean (b : Bool)
  | integer (n : Int)
  | double (d : Double)
  | string (s : String)
  | list (items : List Document)
  | object (entries : List (String × Document))

namespace Document

/-! ## Numbers -/

/-- The digits of a number in its three parts. -/
structure Numeral where
  negative : Bool
  whole : List Char
  fraction : Option (List Char)
  exponent : Option (Bool × List Char)

/-- Reads digits into a significand as long as it stays below 64 bits: the significand and how many
digits it took. -/
def absorb (n : Nat) : List Char → Nat × Nat
  | [] => (n, 0)
  | c :: cs =>
    let n' := 10 * n + Text.digitsValue [c]
    if n' < Text.nat64Limit then
      let (m, k) := absorb n' cs
      (m, k + 1)
    else (n, 0)

/-- A power of ten as a double. -/
def powerOfTen (k : Nat) : Double := Double.ofDecimal 1 k

/-- `x` divided by ten `k` times, at most 308 times in one step. -/
def scaleDown (x : Float) (k : Nat) : Float :=
  if k ≤ 308 then x / (powerOfTen k).toFloat
  else if x == 0 then x
  else scaleDown (x / (powerOfTen 308).toFloat) (k - 308)
termination_by k

/-- The double `n * 10 ^ e`, rounded when `n` becomes a double and when it is scaled; none if it is too
large. -/
def scaled? (n : Nat) (e : Int) : Option Double :=
  let x := (Double.ofInt n).toFloat
  if e < 0 then some (Double.ofFloat (scaleDown x (-e).toNat))
  else if n = 0 then some (Double.ofInt 0)
  else if 308 < e then none
  else some (Double.ofFloat (x * (powerOfTen e.toNat).toFloat)) |>.filter (·.isFinite)

/-- The value of a numeral. Negative zero is a double. -/
def Numeral.value? (n : Numeral) : Option Document :=
  let (significand, taken) := absorb 0 n.whole
  let isWhole := n.fraction.isNone && n.exponent.isNone
  let integer := if n.negative then -(significand : Int) else significand
  let isExact := taken == n.whole.length && !(n.negative && significand == 0) &&
    decide (-(Text.int64Limit : Int) ≤ integer)
  if isWhole && isExact then some (.integer integer)
  else
    let (significand, places) := absorb significand (n.fraction.getD [])
    let written : Int := match n.exponent with
      | some (true, digits) => -(Text.digitsValue digits : Int)
      | some (false, digits) => Text.digitsValue digits
      | none => 0
    (scaled? significand (written + (n.whole.length - taken : Nat) - places)).map fun d =>
      .double (if n.negative then d.negated else d)

/-! ## Tokens -/

/-- The tokens of a document. -/
inductive Token where
  | openList | closeList | openObject | closeObject | comma | colon
  | value (d : Document)

/-- A blank between tokens. -/
def isBlank (c : Char) : Bool :=
  c == ' ' || c == '\t' || c == '\n' || c == '\r'

/-- The value of a hexadecimal digit. -/
def hexDigit? (c : Char) : Option Nat :=
  if c.isDigit then some (c.toNat - '0'.toNat)
  else if 'a' ≤ c && c ≤ 'f' then some (c.toNat - 'a'.toNat + 10)
  else if 'A' ≤ c && c ≤ 'F' then some (c.toNat - 'A'.toNat + 10)
  else none

/-- The number that four hexadecimal digits write. -/
def hexUnit? (a b c d : Char) : Option Nat := do
  return (((← hexDigit? a) * 16 + (← hexDigit? b)) * 16 + (← hexDigit? c)) * 16 + (← hexDigit? d)

/-- The character that a letter stands for after a backslash. -/
def escaped? : Char → Option Char
  | '"' => some '"'
  | '\\' => some '\\'
  | '/' => some '/'
  | 'b' => some '\x08'
  | 'f' => some '\x0c'
  | 'n' => some '\n'
  | 'r' => some '\r'
  | 't' => some '\t'
  | _ => none

/-- The text of a string, from after its first quote, and what follows its last quote. A character
outside the first plane may be written as the two units of its pair, none of which may stand alone. -/
def readString? : List Char → Option (List Char × List Char)
  | '"' :: rest => some ([], rest)
  | '\\' :: 'u' :: a :: b :: c :: d :: '\\' :: 'u' :: e :: f :: g :: h :: rest =>
    match hexUnit? a b c d with
    | none => none
    | some high =>
      if 0xD800 ≤ high ∧ high < 0xDC00 then
        match hexUnit? e f g h with
        | none => none
        | some low =>
          if 0xDC00 ≤ low ∧ low < 0xE000 then
            (readString? rest).map fun (text, rest) =>
              (Char.ofNat (0x10000 + (high - 0xD800) * 0x400 + (low - 0xDC00)) :: text, rest)
          else none
      else if 0xDC00 ≤ high ∧ high < 0xE000 then none
      else
        (readString? ('\\' :: 'u' :: e :: f :: g :: h :: rest)).map fun (text, rest) =>
          (Char.ofNat high :: text, rest)
  | '\\' :: 'u' :: a :: b :: c :: d :: rest =>
    match hexUnit? a b c d with
    | none => none
    | some n =>
      if 0xD800 ≤ n ∧ n < 0xE000 then none
      else (readString? rest).map fun (text, rest) => (Char.ofNat n :: text, rest)
  | '\\' :: c :: rest =>
    match escaped? c with
    | none => none
    | some c => (readString? rest).map fun (text, rest) => (c :: text, rest)
  | c :: rest =>
    if c.toNat < 0x20 then none
    else (readString? rest).map fun (text, rest) => (c :: text, rest)
  | [] => none

/-- The digits at the start of a text, at least one, and what follows them. -/
def readDigits? (cs : List Char) : Option (List Char × List Char) :=
  let digits := cs.takeWhile Char.isDigit
  if digits.isEmpty then none else some (digits, cs.dropWhile Char.isDigit)

/-- The numeral at the start of a text and what follows it. Its whole part has no leading zero. -/
def readNumeral? (cs : List Char) : Option (Numeral × List Char) := do
  let (negative, cs) := match cs with
    | '-' :: rest => (true, rest)
    | _ => (false, cs)
  let (whole, cs) ← readDigits? cs
  if whole.head? = some '0' ∧ whole.length ≠ 1 then none
  let (fraction, cs) ← match cs with
    | '.' :: rest => (readDigits? rest).map fun (digits, rest) => (some digits, rest)
    | _ => some (none, cs)
  let (exponent, cs) ← match cs with
    | c :: rest =>
      if c = 'e' ∨ c = 'E' then
        match rest with
        | '-' :: rest => (readDigits? rest).map fun (digits, rest) => (some (true, digits), rest)
        | '+' :: rest => (readDigits? rest).map fun (digits, rest) => (some (false, digits), rest)
        | _ => (readDigits? rest).map fun (digits, rest) => (some (false, digits), rest)
      else some (none, cs)
    | [] => some (none, cs)
  return (⟨negative, whole, fraction, exponent⟩, cs)

/-- The token at the start of a text that does not start with a blank, and what follows it. -/
def readToken? : List Char → Option (Token × List Char)
  | '[' :: rest => some (.openList, rest)
  | ']' :: rest => some (.closeList, rest)
  | '\x7b' :: rest => some (.openObject, rest)
  | '\x7d' :: rest => some (.closeObject, rest)
  | ',' :: rest => some (.comma, rest)
  | ':' :: rest => some (.colon, rest)
  | '"' :: rest =>
    (readString? rest).map fun (text, rest) => (.value (.string (String.ofList text)), rest)
  | 'n' :: 'u' :: 'l' :: 'l' :: rest => some (.value .null, rest)
  | 't' :: 'r' :: 'u' :: 'e' :: rest => some (.value (.boolean true), rest)
  | 'f' :: 'a' :: 'l' :: 's' :: 'e' :: rest => some (.value (.boolean false), rest)
  | cs => do
    let (n, rest) ← readNumeral? cs
    return (.value (← n.value?), rest)

/-- The tokens of a text; `bound` is at least the length of the text. -/
def tokensWithin? : Nat → List Char → Option (List Token)
  | _, [] => some []
  | 0, _ :: _ => none
  | bound + 1, c :: cs =>
    if isBlank c then tokensWithin? bound cs
    else do
      let (t, rest) ← readToken? (c :: cs)
      return t :: (← tokensWithin? bound rest)

/-- The tokens of a text. -/
def tokens? (cs : List Char) : Option (List Token) := tokensWithin? cs.length cs

/-! ## Values -/

/-- An open container, its content in reverse order; in an object, the key whose value comes next. -/
inductive Frame where
  | list (items : List Document)
  | object (entries : List (String × Document)) (key : String)

/-- What has been read: the open containers, the innermost first, and what comes next. -/
inductive Progress where
  /-- A value, or the end of a list that has no items yet. -/
  | atValue (frames : List Frame) (atStart : Bool)
  /-- A key, or the end of an object that has no entries yet. -/
  | atKey (frames : List Frame) (entries : List (String × Document)) (atStart : Bool)
  /-- The colon after a key. -/
  | atColon (frames : List Frame) (entries : List (String × Document)) (key : String)
  /-- A comma or the end of the container. -/
  | afterValue (frame : Frame) (frames : List Frame)
  /-- Nothing, the document is complete. -/
  | done (d : Document)

/-- The most containers that may be open at a time. -/
def maxDepth : Nat := 127

namespace Progress

/-- A value is complete. -/
def supply (frames : List Frame) (d : Document) : Progress :=
  match frames with
  | [] => done d
  | .list items :: frames => afterValue (.list (d :: items)) frames
  | .object entries key :: frames => afterValue (.object ((key, d) :: entries) key) frames

/-- Takes one more token. -/
def next? : Progress → Token → Option Progress
  | atValue frames atStart, t =>
    match t with
    | .value d => some (supply frames d)
    | .openList => if frames.length < maxDepth then some (atValue (.list [] :: frames) true) else none
    | .openObject => if frames.length < maxDepth then some (atKey frames [] true) else none
    | .closeList =>
      match atStart, frames with
      | true, .list _ :: frames => some (supply frames (.list []))
      | _, _ => none
    | _ => none
  | atKey frames entries atStart, t =>
    match t with
    | .value (.string key) => some (atColon frames entries key)
    | .closeObject => if atStart then some (supply frames (.object [])) else none
    | _ => none
  | atColon frames entries key, t =>
    match t with
    | .colon => some (atValue (.object entries key :: frames) false)
    | _ => none
  | afterValue (.list items) frames, t =>
    match t with
    | .comma => some (atValue (.list items :: frames) false)
    | .closeList => some (supply frames (.list items.reverse))
    | _ => none
  | afterValue (.object entries _) frames, t =>
    match t with
    | .comma => some (atKey frames entries false)
    | .closeObject => some (supply frames (.object entries.reverse))
    | _ => none
  | done _, _ => none

end Progress

/-- The document that a text writes. -/
def read? (cs : List Char) : Option Document := do
  match ← (← tokens? cs).foldlM Progress.next? (.atValue [] false) with
  | .done d => some d
  | _ => none

/-- The value of a key, the last one if the key is repeated. -/
def field? (entries : List (String × Document)) (key : String) : Option Document :=
  (entries.reverse.find? (·.1 == key)).map Prod.snd

end Document

end DesktopSearch
