import DesktopSearch.Number.Double
import DesktopSearch.Text.Digit

/-!
# Decimal text of doubles

`Double.text` writes a number with the fewest digits that read back as the same number, the nearest
such number if there are several and the larger one on a tie; it never uses an exponent, and whole
numbers have no point. `Double.read?` reads decimal text with an optional fraction and exponent, and
the words for infinity and for no number.

The fewest digits are those of the coarsest decimal grid that has a point in the interval of reals
rounding to the number. If a grid has such a point, one of the number's two neighbours on the grid is
one.
-/

namespace DesktopSearch

namespace Double

/-! ## Writing -/

/-- The reals that round to a positive number, all in units of `2 ^ unit`: from `value - below` to
`value + above`, ends included when `closed`. -/
structure Interval where
  value : Nat
  below : Nat
  above : Nat
  unit : Int
  closed : Bool

/-- The rounding interval of a finite number other than zero. The gap below a power of two is half
as wide as the one above. -/
def interval (d : Double) : Interval :=
  let closed := d.mantissa % 2 == 0
  if d.mantissa = Nat.pow 2 52 then ⟨4 * d.mantissa, 1, 2, d.exponent - 2, closed⟩
  else ⟨2 * d.mantissa, 1, 1, d.exponent - 1, closed⟩

/-- The multiple of `10 ^ e` in the interval that is nearest to its value, if there is one. -/
def Interval.onGrid? (r : Interval) (e : Int) : Option Nat :=
  let step := Nat.pow 10 e.toNat * Nat.pow 2 (-r.unit).toNat
  let unit := Nat.pow 2 r.unit.toNat * Nat.pow 10 (-e).toNat
  let low := (r.value - r.below) * unit
  let high := (r.value + r.above) * unit
  let inside (n : Nat) : Bool :=
    if r.closed then decide (low ≤ n * step) && decide (n * step ≤ high)
    else decide (low < n * step) && decide (n * step < high)
  let n := r.value * unit / step
  match inside n, inside (n + 1) with
  | true, true =>
    if r.value * unit - n * step < (n + 1) * step - r.value * unit then some n else some (n + 1)
  | true, false => some n
  | false, true => some (n + 1)
  | false, false => none

/-- A decimal exponent above every grid that can meet the interval. -/
def Interval.top (r : Interval) : Int :=
  ((r.value.log2 : Int) + r.unit + 1) * 30103 / 100000 + 2

/-- The coarsest grid with a point in the interval: the point and the exponent of the grid. -/
def Interval.shortest? (r : Interval) : Option (Nat × Int) :=
  (List.range 24).findSome? fun (i : Nat) =>
    let e := r.top - i
    (r.onGrid? e).map fun n => (n, e)

/-- The digits of `n * 10 ^ e` without an exponent. -/
def positional (n : Nat) (e : Int) : List Char :=
  let digits := (toString n).toList
  if 0 ≤ e then digits ++ List.replicate e.toNat '0'
  else
    let places := (-e).toNat
    if digits.length ≤ places then
      ['0', '.'] ++ List.replicate (places - digits.length) '0' ++ digits
    else digits.take (digits.length - places) ++ '.' :: digits.drop (digits.length - places)

/-- The number as text. -/
def text (d : Double) : String :=
  if d.isNaN then "NaN"
  else
    let sign := if d.isNegative then "-" else ""
    if !d.isFinite then sign ++ "inf"
    else if d.mantissa = 0 then sign ++ "0"
    else
      match d.interval.shortest? with
      | some (n, e) => sign ++ String.ofList (positional n e)
      | none => sign

/-! ## Reading -/

/-- The number nearest to `n * 10 ^ e`. -/
def ofDecimal (n : Nat) (e : Int) : Double :=
  if n = 0 then ⟨0⟩
  else
    let size := (toString n).length + e
    if 310 < size then infinity
    else if size < -330 then ⟨0⟩
    else ofRatio (n * Nat.pow 10 e.toNat) (Nat.pow 10 (-e).toNat)

/-- The exponent of a number, from after the digits to the end of the text. -/
def readExponent? : List Char → Option Int
  | [] => some 0
  | c :: cs =>
    if c = 'e' || c = 'E' then
      match cs with
      | '-' :: rest => (Text.readDigits? rest).map fun n => -Int.ofNat n
      | '+' :: rest => (Text.readDigits? rest).map Int.ofNat
      | rest => (Text.readDigits? rest).map Int.ofNat
    else none

/-- A number without its sign: digits with at most one point, at least one digit, and an optional
exponent. -/
def readUnsigned? (cs : List Char) : Option Double :=
  let whole := cs.takeWhile Char.isDigit
  let rest := cs.dropWhile Char.isDigit
  let (fraction, rest) := match rest with
    | '.' :: after => (after.takeWhile Char.isDigit, after.dropWhile Char.isDigit)
    | _ => ([], rest)
  if whole.isEmpty && fraction.isEmpty then none
  else
    (readExponent? rest).map fun e =>
      ofDecimal (Text.digitsValue (whole ++ fraction)) (e - fraction.length)

/-- The words for infinity and for no number, in any case. -/
def readWord? (cs : List Char) : Option Double :=
  match String.ofList (cs.map Char.toLower) with
  | "inf" => some infinity
  | "infinity" => some infinity
  | "nan" => some nan
  | _ => none

/-- The number that a text spells. -/
def read? (cs : List Char) : Option Double :=
  let unsigned? (rest : List Char) := (readWord? rest).or (readUnsigned? rest)
  match cs with
  | '-' :: rest => (unsigned? rest).map negated
  | '+' :: rest => unsigned? rest
  | _ => unsigned? cs

end Double

end DesktopSearch
