import Relaxation.Decimal.Basic

/-!
# The shortest decimal that reads back

`Decimal.shortest` chooses, among the decimals that round to a given binary64 number, one with
the fewest digits, and of these the nearest to it; of two equally near the larger. On each grid
of decimals only the two neighbours of the number need a look: if any point of the grid rounds
to it, one of them does.
-/

namespace Relaxation

/-- The decimals that round to a binary64 number lie between `low` and `high`, which belong to
them when `closed`. All three magnitudes have the denominator `den`. -/
private structure RoundingInterval where
  low : Nat
  value : Nat
  high : Nat
  den : Nat
  closed : Bool

private def RoundingInterval.ofBinary (mantissa : Nat) (exponent : Int) : RoundingInterval :=
  let unit := Ratio.ofBinary 1 (exponent - 2)
  let below := if mantissa == Binary.exponentUnit && exponent != -1074 then 1 else 2
  ⟨(4 * mantissa - below) * unit.num, 4 * mantissa * unit.num, (4 * mantissa + 2) * unit.num,
    unit.den, mantissa % 2 == 0⟩

private def RoundingInterval.contains (iv : RoundingInterval) (d : Decimal) : Bool :=
  let point := Ratio.shift ⟨d.coefficient * iv.den, 1⟩ d.exponent
  let low := iv.low * point.den
  let high := iv.high * point.den
  if iv.closed then low ≤ point.num && point.num ≤ high else low < point.num && point.num < high

/-- The better of the two neighbours of the value on the grid of multiples of `10 ^ k`, if
either lies in the interval. -/
private def RoundingInterval.onGrid (iv : RoundingInterval) (k : Int) : Option Decimal :=
  let scaled := Ratio.shift ⟨iv.value, iv.den⟩ (-k)
  let down : Decimal := ⟨scaled.floor, k⟩
  let up : Decimal := ⟨scaled.floor + 1, k⟩
  let downIsNearer := 2 * (scaled.num % scaled.den) < scaled.den
  match iv.contains down, iv.contains up with
  | true, true => some (if downIsNearer then down else up)
  | true, false => some down
  | false, true => some up
  | false, false => none

/-- The decimal with ten tenths of a unit written as one unit. -/
private def Decimal.normal (d : Decimal) : Decimal :=
  if d.coefficient == 10 then ⟨1, d.exponent + 1⟩ else d

/-- The shortest decimal that rounds to `mantissa * 2 ^ exponent`. -/
def Decimal.shortest (mantissa : Nat) (exponent : Int) : Decimal :=
  if mantissa == 0 then ⟨0, 0⟩
  else
    let iv := RoundingInterval.ofBinary mantissa exponent
    let top := (Ratio.mk iv.value iv.den).magnitude
    let found := (List.range 17).findSome? fun (n : Nat) => iv.onGrid (top - n)
    (found.getD ⟨mantissa, 0⟩).normal

end Relaxation
