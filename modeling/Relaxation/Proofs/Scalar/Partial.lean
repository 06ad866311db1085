import Mathlib.Analysis.SpecialFunctions.Trigonometric.Inverse
import Mathlib.Order.WithBot
import Relaxation.Geometry.Vec3
import Relaxation.Proofs.Scalar.Real

/-!
# Reals with an undefined value

A second exact `Scalar`, in which an operation outside its domain has no value: a quotient by zero,
a root of a negative number, an arc cosine beyond one. The undefined value hands itself on through
every operation and compares to nothing, and the total order places it before all numbers, as it
does a negative NaN. So a computation that is read over this scalar and ends with a number has
stayed inside the domain of each operation that the number depends on.
-/

namespace Relaxation

/-- A real number, or the value of an operation that has none. -/
inductive PartialReal where
  | undefined
  | real (x : ℝ)

namespace PartialReal

noncomputable instance : Coe ℝ PartialReal := ⟨real⟩

/-- An operation that is defined everywhere. -/
def map (f : ℝ → ℝ) : PartialReal → PartialReal
  | undefined => undefined
  | real x => f x

/-- An operation of two numbers that is defined everywhere. -/
def map₂ (f : ℝ → ℝ → ℝ) : PartialReal → PartialReal → PartialReal
  | real x, real y => f x y
  | _, _ => undefined

/-- Whether both are numbers in a relation. -/
def Holds (r : ℝ → ℝ → Prop) : PartialReal → PartialReal → Prop
  | real x, real y => r x y
  | _, _ => False

/-- The quotient, which zero as a divisor leaves undefined. -/
noncomputable def div : PartialReal → PartialReal → PartialReal
  | real x, real y => if y = 0 then undefined else ↑(x / y)
  | _, _ => undefined

/-- The root, undefined for negative numbers. -/
noncomputable def sqrt : PartialReal → PartialReal
  | real x => if x < 0 then undefined else √x
  | undefined => undefined

/-- The arc cosine, undefined beyond one. -/
noncomputable def acos : PartialReal → PartialReal
  | real x => if |x| ≤ 1 then Real.arccos x else undefined
  | undefined => undefined

/-- The place in the total order. -/
def rank : PartialReal → WithBot ℝ
  | undefined => ⊥
  | real x => x

open Classical in
noncomputable instance : Scalar PartialReal where
  zero := (0 : ℝ)
  one := (1 : ℝ)
  add := map₂ (· + ·)
  sub := map₂ (· - ·)
  mul := map₂ (· * ·)
  div := div
  neg := map (-·)
  natCast n := (n : ℝ)
  ofScientific m s e := (OfScientific.ofScientific m s e : ℝ)
  lt := Holds (· < ·)
  le := Holds (· ≤ ·)
  beq a b := decide (Holds (· = ·) a b)
  decidableLT _ _ := inferInstance
  decidableLE _ _ := inferInstance
  abs := map (|·|)
  sqrt := sqrt
  sin := map Real.sin
  cos := map Real.cos
  acos := acos
  hypot := map₂ Scalar.hypot
  pi := Real.pi
  isFinite a := decide (a ≠ undefined)
  totalLt a b := decide (a.rank < b.rank)

variable {x y : ℝ}

@[simp] theorem real_le_iff : (x : PartialReal) ≤ y ↔ x ≤ y := Iff.rfl

@[simp] theorem zero_eq : (0 : PartialReal) = (0 : ℝ) := rfl

@[simp] theorem real_add : (x : PartialReal) + y = ↑(x + y) := rfl

@[simp] theorem real_sub : (x : PartialReal) - y = ↑(x - y) := rfl

@[simp] theorem real_mul : (x : PartialReal) * y = ↑(x * y) := rfl

theorem real_div (h : y ≠ 0) : (x : PartialReal) / y = ↑(x / y) := if_neg h

theorem div_zero (a : PartialReal) : a / (0 : ℝ) = undefined := by
  cases a with
  | undefined => rfl
  | real x => exact if_pos rfl

theorem recip_real (h : x ≠ 0) : Scalar.recip (x : PartialReal) = ↑(x⁻¹) :=
  (real_div h).trans (congrArg real (one_div x))

theorem totalLt_iff {a b : PartialReal} : Scalar.totalLt a b = true ↔ a.rank < b.rank :=
  decide_eq_true_iff

end PartialReal

namespace Vec3

/-- A vector of numbers, none of them undefined. -/
def lift (v : Vec3 ℝ) : Vec3 PartialReal := ⟨v.x, v.y, v.z⟩

/-- The vector none of whose components has a value. -/
def undefined : Vec3 PartialReal := ⟨.undefined, .undefined, .undefined⟩

section Lift

variable (a b : Vec3 ℝ) (t : ℝ)

theorem lift_injective : Function.Injective lift := by
  intro a b h
  obtain ⟨hx, hy, hz⟩ := Vec3.mk.inj h
  exact Vec3.ext (PartialReal.real.inj hx) (PartialReal.real.inj hy) (PartialReal.real.inj hz)

theorem lift_ne_undefined : lift a ≠ undefined := by
  intro h
  exact PartialReal.noConfusion (Vec3.mk.inj h).1

@[simp] theorem lift_add : lift a + lift b = lift (a + b) := rfl

@[simp] theorem lift_sub : lift a - lift b = lift (a - b) := rfl

@[simp] theorem lift_mul : lift a * (t : PartialReal) = lift (a * t) := rfl

@[simp] theorem lift_dot : (lift a).dot (lift b) = a.dot b := rfl

theorem add_undefined : lift a + undefined = undefined := rfl

theorem mul_undefined : lift a * PartialReal.undefined = undefined := rfl

end Lift

end Vec3
end Relaxation
