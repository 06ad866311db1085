import Relaxation.Decimal.Basic

/-!
# Reading decimals

`Decimal.toFloat` gives the binary64 number nearest to a decimal, with ties to even, and
`Decimal.read?` reads the text of one.
-/

namespace Relaxation

namespace Ratio

/-- The exponent of the unit that a magnitude is rounded to: the one that leaves a mantissa of 53
bits, but not less than the least exponent of the format. -/
private def unitExponent (r : Ratio) : Int :=
  let guess : Int := (r.num.log2 : Int) - r.den.log2 - 52
  let unit := Ratio.ofBinary 1 guess
  let exponent := if r.num * unit.den < Binary.exponentUnit * unit.num * r.den then guess - 1
    else guess
  max exponent (-1074)

/-- The bits of infinity. -/
def infiniteBits : Nat := 2047 * Binary.exponentUnit

/-- The bits of the binary64 number nearest to a magnitude, the even one of two. -/
def toBits (r : Ratio) : Nat :=
  if r.num == 0 then 0
  else
    let exponent := r.unitExponent
    let unit := Ratio.ofBinary 1 exponent
    let mantissa := (Ratio.mk (r.num * unit.den) (r.den * unit.num)).roundEven
    let bits := (exponent + 1074).toNat * Binary.exponentUnit + mantissa
    min bits infiniteBits

end Ratio

namespace Decimal

/-- The binary64 number nearest to `± d`. Magnitudes that are certainly beyond the format, or
certainly below half its least number, are told by the exponent alone. -/
def toFloat (negative : Bool) (d : Decimal) : Float :=
  let leading := d.exponent + Ratio.digitCount d.coefficient
  let bits :=
    if d.coefficient == 0 || leading < -400 then 0
    else if 400 < leading then Ratio.infiniteBits
    else (Ratio.shift ⟨d.coefficient, 1⟩ d.exponent).toBits
  Float.ofBits (UInt64.ofNat (if negative then Binary.signUnit + bits else bits))

/-- The value of a run of digits, `none` if some character is no digit. -/
def digits? (cs : List Char) : Option Nat :=
  if cs.all Char.isDigit then some (cs.foldl (fun n c => 10 * n + (c.toNat - '0'.toNat)) 0)
  else none

private def splitSign : List Char → Bool × List Char
  | '-' :: cs => (true, cs)
  | '+' :: cs => (false, cs)
  | cs => (false, cs)

/-- The part of a text before the first character that satisfies `p`, and the part after it. -/
private def splitAtFirst (p : Char → Bool) (cs : List Char) : List Char × Option (List Char) :=
  (cs.takeWhile (!p ·), (cs.dropWhile (!p ·)).tail?)

private def exponent? : Option (List Char) → Option Int
  | none => some 0
  | some cs =>
    let (negative, cs) := splitSign cs
    if cs.isEmpty then none
    else (digits? cs).map fun n => if negative then -(n : Int) else n

/-- Reads an optional sign, digits with an optional point among or around them, and an optional
exponent. At least one digit stands beside the point. -/
def read? (text : String) : Option (Bool × Decimal) := do
  let (negative, cs) := splitSign text.toList
  let (significand, tail) := splitAtFirst (fun c => c == 'e' || c == 'E') cs
  let (whole, fraction) := splitAtFirst (· == '.') significand
  let fraction := fraction.getD []
  if whole.isEmpty && fraction.isEmpty then failure
  let coefficient ← digits? (whole ++ fraction)
  let exponent ← exponent? tail
  return (negative, ⟨coefficient, exponent - fraction.length⟩)

/-- The binary64 number nearest to the number that the text writes. -/
def readFloat? (text : String) : Option Float :=
  (read? text).map fun (negative, d) => d.toFloat negative

end Decimal
end Relaxation
