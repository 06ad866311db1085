/-!
# Decimal numbers and exact rounding

Decimals, and the exact value of a binary64 number as a quotient of natural numbers. All
rounding here is integer arithmetic on such quotients.
-/

namespace Relaxation

/-- The number `coefficient * 10 ^ exponent`. -/
structure Decimal where
  coefficient : Nat
  exponent : Int
  deriving Repr, DecidableEq

/-- The magnitude `num / den`. -/
structure Ratio where
  num : Nat
  den : Nat
  deriving Repr, DecidableEq

/-- The number `10 ^ k`. -/
def tenPow (k : Nat) : Nat := Nat.pow 10 k

namespace Ratio

/-- The magnitude `mantissa * 2 ^ exponent`. -/
def ofBinary (mantissa : Nat) (exponent : Int) : Ratio :=
  match exponent with
  | .ofNat k => ⟨mantissa <<< k, 1⟩
  | .negSucc k => ⟨mantissa, 1 <<< (k + 1)⟩

/-- The magnitude scaled by `10 ^ k`. -/
def shift (r : Ratio) : Int → Ratio
  | .ofNat k => ⟨r.num * tenPow k, r.den⟩
  | .negSucc k => ⟨r.num, r.den * tenPow (k + 1)⟩

def floor (r : Ratio) : Nat := r.num / r.den

/-- The nearest natural number, the even one of two. -/
def roundEven (r : Ratio) : Nat :=
  let q := r.num / r.den
  let twice := 2 * (r.num % r.den)
  if twice < r.den then q else if r.den < twice then q + 1 else q + q % 2

/-- The number of decimal digits, one for zero. -/
def digitCount (n : Nat) : Nat := (Nat.toDigits 10 n).length

/-- The exponent of the leading decimal digit of a positive magnitude. -/
def magnitude (r : Ratio) : Int :=
  if r.den ≤ r.num then (digitCount r.floor : Int) - 1
  else
    let k := digitCount (r.den / r.num)
    if r.den ≤ r.num * tenPow (k - 1) then 1 - (k : Int) else -(k : Int)

end Ratio

/-- A binary64 number taken apart: a finite one is `± mantissa * 2 ^ exponent`. -/
inductive Binary where
  | nan
  | infinite (negative : Bool)
  | finite (negative : Bool) (mantissa : Nat) (exponent : Int)
  deriving Repr, DecidableEq

namespace Binary

/-- The value of the sign bit, `2 ^ 63`. -/
def signUnit : Nat := 0x8000000000000000

/-- The value of the lowest bit of the exponent field, `2 ^ 52`, and of the bit that every normal
mantissa starts with. -/
def exponentUnit : Nat := 0x10000000000000

def ofFloat (x : Float) : Binary :=
  let bits := x.toBits.toNat
  let negative := bits / signUnit == 1
  let biased : Nat := bits / exponentUnit % 2048
  let fraction := bits % exponentUnit
  if biased == 2047 then if fraction == 0 then .infinite negative else .nan
  else if biased == 0 then .finite negative fraction (-1074)
  else .finite negative (exponentUnit + fraction) ((biased : Int) - 1075)

end Binary

end Relaxation
