import Relaxation.Decimal.Shortest

/-!
# Written numbers

Three ways to write a binary64 number: `plain` with the fewest digits that read back and never
an exponent, `fixed` with a given number of places, and `scientific` with a given number of
places in the significand. Rounding is exact, and a tie goes to the even digit. The sign of zero
is kept.
-/

namespace Relaxation.Decimal

/-- The digits of `n`, with zeros in front up to `width` digits. -/
def zeroPadded (width n : Nat) : String :=
  let digits := Nat.toDigits 10 n
  String.ofList (List.replicate (width - digits.length) '0' ++ digits)

/-- A text with blanks in front up to `width` characters. -/
def blankPadded (width : Nat) (s : String) : String :=
  String.ofList (List.replicate (width - s.length) ' ') ++ s

/-- The number `n / 10 ^ places`, with a point and `places` digits after it. -/
def withPoint (places n : Nat) : String :=
  if places == 0 then toString n
  else toString (n / tenPow places) ++ "." ++ zeroPadded places (n % tenPow places)

/-- The decimal without an exponent, and without zeros at the end of a fraction. -/
def positional (d : Decimal) : String :=
  match d.exponent with
  | .ofNat k => toString (d.coefficient * tenPow k)
  | .negSucc k => withPoint (k + 1) d.coefficient

def sign (negative : Bool) : String := if negative then "-" else ""

private def signed (x : Float) (magnitude : Nat → Int → String) : String :=
  match Binary.ofFloat x with
  | .nan => "NaN"
  | .infinite negative => sign negative ++ "inf"
  | .finite negative mantissa exponent => sign negative ++ magnitude mantissa exponent

/-- The fewest digits that read back as `x`, written without an exponent. -/
def plain (x : Float) : String := signed x fun m e => (shortest m e).positional

/-- The number `x` rounded to `places` places after the point. -/
def fixed (places : Nat) (x : Float) : String :=
  signed x fun m e => withPoint places ((Ratio.ofBinary m e).shift places).roundEven

/-- The magnitude rounded to `places + 1` significant digits, zero staying zero. -/
def significant (places : Nat) (r : Ratio) : Decimal :=
  if r.num == 0 then ⟨0, -(places : Int)⟩
  else
    let k := r.magnitude - places
    let n := (r.shift (-k)).roundEven
    if n == tenPow (places + 1) then ⟨tenPow places, k + 1⟩ else ⟨n, k⟩

/-- The number `x` as a significand with one digit before the point and `places` after it, times
a power of ten. -/
def scientific (places : Nat) (x : Float) : String :=
  signed x fun m e =>
    let d := significant places (Ratio.ofBinary m e)
    withPoint places d.coefficient ++ "e" ++ toString (d.exponent + places)

end Relaxation.Decimal
