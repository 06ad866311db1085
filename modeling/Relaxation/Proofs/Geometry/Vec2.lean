import Mathlib.Tactic.Linarith
import Mathlib.Tactic.Ring
import Relaxation.Geometry.Vec2
import Relaxation.Proofs.Scalar.Real

/-!
# Vectors in the plane over the reals
-/

namespace Relaxation.Vec2

section Components

variable {α : Type} [Scalar α] (a b : Vec2 α) (t : α)

@[simp] theorem zero_x : (0 : Vec2 α).x = 0 := rfl

@[simp] theorem zero_y : (0 : Vec2 α).y = 0 := rfl

@[simp] theorem add_x : (a + b).x = a.x + b.x := rfl

@[simp] theorem add_y : (a + b).y = a.y + b.y := rfl

@[simp] theorem sub_x : (a - b).x = a.x - b.x := rfl

@[simp] theorem sub_y : (a - b).y = a.y - b.y := rfl

@[simp] theorem neg_x : (-a).x = -a.x := rfl

@[simp] theorem neg_y : (-a).y = -a.y := rfl

@[simp] theorem mul_x : (a * t).x = a.x * t := rfl

@[simp] theorem mul_y : (a * t).y = a.y * t := rfl

@[simp] theorem div_x : (a / t).x = a.x / t := rfl

@[simp] theorem div_y : (a / t).y = a.y / t := rfl

end Components

variable (a b c : Vec2 ℝ) (t : ℝ)

theorem add_dot : (a + b).dot c = a.dot c + b.dot c := by
  simp only [dot, add_x, add_y]
  ring

theorem mul_dot : (a * t).dot b = t * a.dot b := by
  simp only [dot, mul_x, mul_y]
  ring

theorem dot_mul : a.dot (b * t) = a.dot b * t := by
  simp only [dot, mul_x, mul_y]
  ring

theorem dot_neg : a.dot (-b) = -a.dot b := by
  simp only [dot, neg_x, neg_y]
  ring

theorem dot_self_sub_comm (a b : Vec2 ℝ) : (a - b).dot (a - b) = (b - a).dot (b - a) := by
  simp only [dot, sub_x, sub_y]
  ring

theorem dot_self_nonneg : 0 ≤ a.dot a := by
  simp only [dot]
  nlinarith [sq_nonneg a.x, sq_nonneg a.y]

theorem norm_mul_self : a.norm * a.norm = a.dot a := Real.mul_self_sqrt a.dot_self_nonneg

variable {a b}

theorem norm_mul (ha : a.dot a = 1) {t : ℝ} (ht : 0 ≤ t) : (a * t).norm = t := by
  have hsq : (a * t).dot (a * t) = t * t := by rw [mul_dot, dot_mul, ha, one_mul]
  rw [norm, hsq, Scalar.sqrt_real, Real.sqrt_mul_self ht]

theorem neg_dot_self (h : a.dot a = 1) : (-a).dot (-a) = 1 := by
  simpa [dot] using h

/-- Unit vectors at no angle are the same. -/
theorem eq_of_one_le_dot (ha : a.dot a = 1) (hb : b.dot b = 1) (h : 1 ≤ a.dot b) : a = b := by
  have hsq : (a.x - b.x) ^ 2 + (a.y - b.y) ^ 2 ≤ 0 := by
    simp only [dot] at ha hb h
    nlinarith
  have hx : a.x - b.x = 0 := by nlinarith [sq_nonneg (a.x - b.x), sq_nonneg (a.y - b.y)]
  have hy : a.y - b.y = 0 := by nlinarith [sq_nonneg (a.x - b.x), sq_nonneg (a.y - b.y)]
  exact Vec2.ext (by linarith) (by linarith)

/-- Opposite unit vectors are the only ones at a straight angle. -/
theorem eq_neg_of_dot_le_neg_one (ha : a.dot a = 1) (hb : b.dot b = 1) (h : a.dot b ≤ -1) :
    a = -b := by
  refine eq_of_one_le_dot ha (neg_dot_self hb) ?_
  rw [dot_neg]
  linarith

end Relaxation.Vec2
