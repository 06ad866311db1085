/-!
# Scalars

The arithmetic that geometry and relaxation are written in. Every algorithm of the library is
generic in a `Scalar`, so one definition runs on binary64 numbers and can be read over the exact
reals: the class asks for operations only, and laws belong to the instance at hand.

Comparisons that go through `==` are numerical: over binary64 a NaN equals nothing, not even
itself, and the two zeros are equal.
-/

namespace Relaxation

/-- The operations of a number type in which relaxation can be carried out. -/
class Scalar (α : Type) extends Zero α, One α, Add α, Sub α, Mul α, Div α, Neg α,
    NatCast α, OfScientific α, LT α, LE α, BEq α where
  decidableLT : DecidableLT α
  decidableLE : DecidableLE α
  abs : α → α
  sqrt : α → α
  sin : α → α
  cos : α → α
  acos : α → α
  /-- The length of the hypotenuse over two legs, without overflow on the way. -/
  hypot : α → α → α
  pi : α
  isFinite : α → Bool
  /-- The strict part of a total order, which also places the values that `<` leaves unordered. -/
  totalLt : α → α → Bool

namespace Scalar

variable {α : Type} [Scalar α]

instance : DecidableLT α := decidableLT

instance : DecidableLE α := decidableLE

/-- The larger number; a NaN gives way to the other argument. -/
def max (a b : α) : α :=
  if a < b then b else if a == a then a else b

/-- The smaller number; a NaN gives way to the other argument. -/
def min (a b : α) : α :=
  if b < a then b else if a == a then a else b

/-- The nearest point of `[lo, hi]`; a NaN stays. -/
def clamp (x lo hi : α) : α :=
  let y := if x < lo then lo else x
  if hi < y then hi else y

def recip (x : α) : α := 1 / x

/-- The sum from left to right, started from `-0`, the neutral element of addition. -/
def sum (xs : List α) : α := xs.foldl (· + ·) (-0)

/-- The magnitude of `a` with the sign of `b`. -/
def withSignOf (a b : α) : α := if 0 ≤ b then abs a else -abs a

/-- Whether `x` vanishes beside `size`, that is, adding it changes nothing. -/
def negligible (x size : α) : Bool := abs x + size == size

/-- The first element whose key is least in the total order. -/
def firstMinBy {β : Type} (key : β → α) : List β → Option β
  | [] => none
  | x :: xs => some (xs.foldl (fun best y => if totalLt (key y) (key best) then y else best) x)

/-- The last element whose key is greatest in the total order. -/
def lastMaxBy {β : Type} (key : β → α) : List β → Option β
  | [] => none
  | x :: xs => some (xs.foldl (fun best y => if totalLt (key y) (key best) then best else y) x)

end Scalar
end Relaxation
