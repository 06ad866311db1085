import Relaxation.Decimal.Basic
import Relaxation.Scalar

/-!
# Binary64 numbers

The numbers that programs run on. Their total order places negative NaNs before and positive NaNs
after all numbers, and `-0` just below `0`, so a `Binary64` keeps the sign of a NaN beside its
`Float`, which has a single NaN. A NaN among the operands of an operation hands its sign on to the
result, the first operand before the second, and numbers that an operation has no value for give a
negative NaN. Negation and magnitude act on the sign alone.
-/

namespace Relaxation

structure Binary64 where
  float : Float
  /-- Whether this is a negative NaN. -/
  negativeNaN : Bool
  isNaN_of_negativeNaN : negativeNaN → float.isNaN
  deriving Repr

namespace Binary64

/-- The number, or the positive NaN. -/
def ofFloat (x : Float) : Binary64 := ⟨x, false, nofun⟩

instance : Inhabited Binary64 := ⟨ofFloat 0.0⟩

/-- The number, or the NaN with a given sign. -/
def ofSign (negative : Bool) (x : Float) : Binary64 :=
  ⟨x, x.isNaN && negative, fun h => (Bool.and_eq_true_iff.mp h).1⟩

/-- The sign of a NaN that is the result of an operation, where `otherwise` is the sign that the
other operands ask for. -/
def handOn (a : Binary64) (otherwise : Bool) : Bool :=
  if a.float.isNaN then a.negativeNaN else otherwise

/-- The result `x` of an operation on `a`. -/
def result (x : Float) (a : Binary64) : Binary64 := ofSign (a.handOn true) x

/-- The result `x` of an operation on `a` and `b`. -/
def result₂ (x : Float) (a b : Binary64) : Binary64 := ofSign (a.handOn (b.handOn true)) x

def neg (a : Binary64) : Binary64 := ofSign (!a.negativeNaN) (-a.float)

def abs (a : Binary64) : Binary64 := ofFloat a.float.abs

/-- The place of a number in the total order of its format. -/
def totalRank (a : Binary64) : Int :=
  let bits := a.float.toBits.toNat
  if a.negativeNaN then -1 - (bits : Int)
  else if bits < Binary.signUnit then bits
  else (Binary.signUnit : Int) - 1 - bits

/-- The root of `a² + b²` for `0 ≤ b ≤ a` whose squares stay in range. The rounded root `h` is
corrected by one Newton step; the residual `h² - a² - b²` is formed from differences of `h` and
the legs, which are exact or nearly so. -/
private def correctedHypot (a b : Float) : Float :=
  let h := (a * a + b * b).sqrt
  if h ≤ 2.0 * b then
    let d := h - b
    h - (a * (2.0 * d - a) + (d - 2.0 * (a - b)) * d) / (2.0 * h)
  else
    let d := h - a
    h - (2.0 * d * (a - 2.0 * b) + ((4.0 * d - b) * b + d * d)) / (2.0 * h)

/-- The hypotenuse over `0 ≤ b ≤ a`. Legs whose squares could leave the range are scaled by a
power of two, and a leg too short to matter is added. -/
private def orderedHypot (a b : Float) : Float :=
  if b ≤ a.scaleB (-54) then a + b
  else if (1.0).scaleB 511 < a then (correctedHypot (a.scaleB (-600)) (b.scaleB (-600))).scaleB 600
  else if b < (1.0).scaleB (-459) then
    (correctedHypot (a.scaleB 600) (b.scaleB 600)).scaleB (-600)
  else correctedHypot a b

/-- The hypotenuse, infinite as soon as a leg is, even beside a NaN. -/
def hypotenuse (a b : Float) : Float :=
  if a.isInf || b.isInf then 1.0 / 0.0
  else if a.isNaN || b.isNaN then 0.0 / 0.0
  else if a.abs < b.abs then orderedHypot b.abs a.abs
  else orderedHypot a.abs b.abs

instance : LT Binary64 := ⟨fun a b => a.float < b.float⟩

instance : LE Binary64 := ⟨fun a b => a.float ≤ b.float⟩

instance : Scalar Binary64 where
  zero := ofFloat 0.0
  one := ofFloat 1.0
  add a b := result₂ (a.float + b.float) a b
  sub a b := result₂ (a.float - b.float) a b
  mul a b := result₂ (a.float * b.float) a b
  div a b := result₂ (a.float / b.float) a b
  neg := neg
  natCast n := ofFloat (Float.ofNat n)
  ofScientific m s e := ofFloat (OfScientific.ofScientific m s e)
  beq a b := a.float == b.float
  decidableLT a b := inferInstanceAs (Decidable (a.float < b.float))
  decidableLE a b := inferInstanceAs (Decidable (a.float ≤ b.float))
  abs := abs
  sqrt a := result a.float.sqrt a
  sin a := result a.float.sin a
  cos a := result a.float.cos a
  acos a := result a.float.acos a
  hypot a b := result₂ (hypotenuse a.float b.float) a b
  pi := ofFloat 3.141592653589793
  isFinite a := a.float.isFinite
  totalLt a b := totalRank a < totalRank b

end Binary64
end Relaxation
