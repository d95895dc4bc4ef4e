/-!
# Doubles

Numbers of the binary64 format, kept as their bits: two of them are the same value exactly when
their bits agree, so they can be told apart and used as keys. The finite ones are read off as
`mantissa * 2 ^ exponent`, and `ofRatio` is the number nearest to a quotient of integers, of two that
are equally near the one with the even mantissa. All other arithmetic goes through `Float`.
-/

namespace DesktopSearch

/-- A binary64 number, as its bits. -/
structure Double where
  bits : UInt64
  deriving DecidableEq

namespace Double

/-- The number a `Float` stands for. -/
def ofFloat (x : Float) : Double := ⟨x.toBits⟩

/-- The number as a `Float`, for arithmetic. -/
def toFloat (d : Double) : Float := Float.ofBits d.bits

/-- The eleven bits of the exponent field. -/
def exponentField (d : Double) : Nat := (d.bits.toNat / Nat.pow 2 52) % Nat.pow 2 11

/-- The fifty-two bits of the fraction field. -/
def fractionField (d : Double) : Nat := d.bits.toNat % Nat.pow 2 52

/-- Whether the sign bit is set. -/
def isNegative (d : Double) : Bool := decide (Nat.pow 2 63 ≤ d.bits.toNat)

/-- Whether the number is finite. -/
def isFinite (d : Double) : Bool := d.exponentField != Nat.pow 2 11 - 1

/-- Whether it is no number. -/
def isNaN (d : Double) : Bool := !d.isFinite && d.fractionField != 0

/-- The significand of a finite number, as an integer. -/
def mantissa (d : Double) : Nat :=
  if d.exponentField = 0 then d.fractionField else d.fractionField + Nat.pow 2 52

/-- The power of two that the mantissa of a finite number is scaled by. -/
def exponent (d : Double) : Int :=
  (max d.exponentField 1 : Int) - 1075

/-- The integer nearest to a finite number, halves away from zero. -/
def round? (d : Double) : Option Int :=
  if d.isFinite then
    let size : Nat :=
      if 0 ≤ d.exponent then d.mantissa * Nat.pow 2 d.exponent.toNat
      else
        let scale := Nat.pow 2 (-d.exponent).toNat
        (2 * d.mantissa + scale) / (2 * scale)
    some (if d.isNegative then -(size : Int) else size)
  else none

/-! ## Rounding -/

/-- Positive infinity. -/
def infinity : Double := ⟨0x7FF0000000000000⟩

/-- The value that is no number. -/
def nan : Double := ⟨0x7FF8000000000000⟩

/-- The number with its sign bit set. -/
def negated (d : Double) : Double := ⟨d.bits ||| 0x8000000000000000⟩

/-- `n / d` as an integer, halves rounded to the even one. -/
def roundQuotient (n d : Nat) : Nat :=
  if d < 2 * (n % d) ∨ d = 2 * (n % d) ∧ n / d % 2 = 1 then n / d + 1 else n / d

/-- The exponent of the largest power of two that is not above `n / d`. -/
def magnitude (n d : Nat) : Int :=
  let e : Int := (n.log2 : Int) - d.log2
  if n * Nat.pow 2 (-e).toNat < d * Nat.pow 2 e.toNat then e - 1 else e

/-- The exponent of the last place of the number nearest to `n / d`. -/
def lastPlace (n d : Nat) : Int := max (-1074) (magnitude n d - 52)

/-- The number nearest to `n / d`. The exponent field counts up from the least last place, and a
mantissa that is rounded up to the next power of two carries over into it. -/
def ofRatio (n d : Nat) : Double :=
  if n = 0 then ⟨0⟩
  else
    let e := lastPlace n d
    let mantissa := roundQuotient (n * Nat.pow 2 (-e).toNat) (d * Nat.pow 2 e.toNat)
    let bits := (e + 1074).toNat * Nat.pow 2 52 + mantissa
    if infinity.bits.toNat ≤ bits then infinity else ⟨.ofNat bits⟩

/-- The number nearest to an integer. -/
def ofInt (n : Int) : Double :=
  if n < 0 then (ofRatio n.natAbs 1).negated else ofRatio n.natAbs 1

end Double

end DesktopSearch
