import DesktopSearch.Settings.Basic
import DesktopSearch.Term.Basic

/-!
# Reading numbers

Numbers come as digits, as words, with decimals behind a point, glued to a unit or in front of one. Each
function here reads the terms that a pattern captured, and answers nothing if it does not understand
them.
-/

namespace DesktopSearch.Reading

/-- The single term of a literal, as an answer. -/
def answer (l : Literal) : List Term := [.ofLiteral l]

/-! ## Units -/

/-- A number glued to a unit: digits, decimals behind a point, and letters. -/
structure Glued where
  digits : List Char
  decimals : Option (List Char)
  unit : List Char

/-- The parts of a text that is a number and a unit without a blank between them. Digits of all scripts
count, letters only in ASCII. -/
def glued? (cs : List Char) : Option Glued :=
  let digits := cs.takeWhile Text.isDecimalDigit
  let rest := cs.dropWhile Text.isDecimalDigit
  let (decimals, unit) := match rest with
    | '.' :: after =>
      (some (after.takeWhile Text.isDecimalDigit), after.dropWhile Text.isDecimalDigit)
    | _ => (none, rest)
  if digits.isEmpty || decimals.any List.isEmpty || !unit.all Char.isAlpha then none
  else some ⟨digits, decimals, unit⟩

/-- The texts that a glued number is cut into. -/
def Glued.pieces (g : Glued) : List (List Char) :=
  let decimals := match g.decimals with
    | some digits => [['.'], digits]
    | none => []
  g.digits :: decimals ++ if g.unit.isEmpty then [] else [g.unit]

/-- Terms for texts one behind the other, measured in bytes. -/
def pieceTerms (start : Nat) : List (List Char) → List Term
  | [] => []
  | cs :: rest =>
    let text := String.ofList cs
    .literal ⟨start, text.utf8ByteSize⟩ (.string text) ::
      pieceTerms (start + text.utf8ByteSize) rest

/-- Cuts a number off its unit, and its decimals off the point. -/
def readUnits : List Term → List Term
  | t :: _ =>
    match t.string?.bind fun text => glued? text.toList with
    | some g =>
      if g.decimals.isNone && g.unit.isEmpty then [] else pieceTerms t.span.start g.pieces
    | none => []
  | [] => []

/-! ## Numbers -/

/-- The number that digits or a word stand for. -/
def number? (settings : Settings) (text : String) : Option Int :=
  if !text.isEmpty && text.toList.all Char.isDigit then Text.readInt? Text.int64Limit text.toList
  else (settings.number? text).map Int.ofNat

/-- Reads an integer. -/
def readNumbers (settings : Settings) : List Term → List Term
  | t :: _ =>
    match t.string?.bind (number? settings) with
    | some n => answer (.integer n)
    | none => []
  | [] => []

/-- The most decimals that a double is read with. -/
def maxDecimals : Nat := 12

/-- Reads an integer and its decimals as a double. The length of the decimals in the input counts their
zeros too. -/
def readDecimals : List Term → List Term
  | whole :: part :: _ =>
    match whole.integer?, part.integer? with
    | some n, some d =>
      let places := if part.span.length = 0 then (toString d).length else part.span.length
      if maxDecimals < places then []
      else
        let fraction := (Double.ofInt d).toFloat / (Double.ofInt (Nat.pow 10 places)).toFloat
        answer (.double (.ofFloat ((Double.ofInt n).toFloat + fraction)))
    | _, _ => []
  | _ => []

/-! ## Sizes -/

/-- The number of bytes of a unit. -/
def bytesOf? (unit : String) : Option Nat :=
  match Text.lower unit with
  | "b" | "byte" | "bytes" => some 1
  | "kb" => some (Nat.pow 10 3)
  | "mb" => some (Nat.pow 10 6)
  | "gb" => some (Nat.pow 10 9)
  | "tb" => some (Nat.pow 10 12)
  | "kib" | "k" => some (Nat.pow 2 10)
  | "mib" | "m" => some (Nat.pow 2 20)
  | "gib" | "g" => some (Nat.pow 2 30)
  | "tib" | "t" => some (Nat.pow 2 40)
  | _ => none

/-- The value of a number as a double. -/
def double? : Literal → Option Double
  | .integer n => some (.ofInt n)
  | .double d => some d
  | _ => none

/-- Reads a number and a unit as a number of bytes, which has to lie inside 64 bits. -/
def readFileSize : List Term → List Term
  | amount :: unit :: _ =>
    match amount.literal?.bind double?, unit.string?.bind bytesOf? with
    | some d, some bytes =>
      let size := Double.ofFloat (d.toFloat * (Double.ofInt bytes).toFloat)
      match size.round? with
      | some n => if n.natAbs < Text.int64Limit then answer (.integer n) else []
      | none => []
    | _, _ => []
  | _ => []

end DesktopSearch.Reading
