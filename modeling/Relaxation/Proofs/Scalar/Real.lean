import Mathlib.Analysis.SpecialFunctions.Trigonometric.Inverse
import Mathlib.Data.Rat.Cast.Lemmas
import Relaxation.Proofs.Fault

/-!
# The exact scalar

The reals as a `Scalar`: every operation is exact, all numbers are finite and the total order is
the order itself.
-/

namespace Relaxation

open Classical in
noncomputable instance : Scalar ℝ where
  natCast := Nat.cast
  beq a b := decide (a = b)
  decidableLT := inferInstance
  decidableLE := inferInstance
  abs x := |x|
  sqrt := Real.sqrt
  sin := Real.sin
  cos := Real.cos
  acos := Real.arccos
  hypot a b := Real.sqrt (a ^ 2 + b ^ 2)
  pi := Real.pi
  isFinite _ := true
  totalLt a b := decide (a < b)

namespace Scalar

variable {a b : ℝ}

@[simp] theorem beq_real_iff : (a == b) = true ↔ a = b := decide_eq_true_iff

@[simp] theorem totalLt_real_iff : totalLt a b = true ↔ a < b := decide_eq_true_iff

@[simp] theorem abs_real (a : ℝ) : Scalar.abs a = |a| := rfl

@[simp] theorem sqrt_real (a : ℝ) : Scalar.sqrt a = Real.sqrt a := rfl

@[simp] theorem hypot_real (a b : ℝ) : Scalar.hypot a b = Real.sqrt (a ^ 2 + b ^ 2) := rfl

theorem hypot_mul_self (a b : ℝ) : Scalar.hypot a b * Scalar.hypot a b = a * a + b * b := by
  rw [hypot_real, Real.mul_self_sqrt (add_nonneg (sq_nonneg a) (sq_nonneg b)), sq, sq]

theorem hypot_eq_zero_iff : Scalar.hypot a b = 0 ↔ a = 0 ∧ b = 0 := by
  rw [← mul_self_eq_zero, hypot_mul_self, mul_self_add_mul_self_eq_zero]

@[simp] theorem isFinite_real (a : ℝ) : Scalar.isFinite a = true := rfl

@[simp] theorem recip_real (a : ℝ) : Scalar.recip a = a⁻¹ := one_div a

/-- A decimal literal with `e` places. -/
@[simp] theorem ofScientific_real (m e : ℕ) :
    @OfScientific.ofScientific ℝ Scalar.toOfScientific m true e = m / 10 ^ e := by
  refine (Rat.cast_ofScientific m true e).symm.trans ?_
  change ((Rat.ofScientific m true e : ℚ) : ℝ) = m / 10 ^ e
  rw [Rat.ofScientific_true_def, Rat.mkRat_eq_div]
  push_cast
  rfl

@[simp] theorem max_real (a b : ℝ) : Scalar.max a b = Max.max a b := by
  unfold Scalar.max
  rcases lt_or_ge a b with h | h
  · rw [if_pos h, max_eq_right h.le]
  · rw [if_neg h.not_gt, if_pos (beq_real_iff.mpr rfl), max_eq_left h]

@[simp] theorem min_real (a b : ℝ) : Scalar.min a b = Min.min a b := by
  unfold Scalar.min
  rcases lt_or_ge b a with h | h
  · rw [if_pos h, min_eq_right h.le]
  · rw [if_neg h.not_gt, if_pos (beq_real_iff.mpr rfl), min_eq_left h]

theorem clamp_real (x lo hi : ℝ) : Scalar.clamp x lo hi = Min.min (Max.max x lo) hi := by
  have hlower : (if x < lo then lo else x) = Max.max x lo := by rw [max_def_lt]
  rw [Scalar.clamp, hlower, min_comm, min_def_lt]

@[simp] theorem sum_real (xs : List ℝ) : Scalar.sum xs = xs.sum := by
  rw [Scalar.sum, neg_zero, List.sum_eq_foldl]

theorem negligible_real_iff {x size : ℝ} : negligible x size = true ↔ x = 0 := by
  rw [negligible, beq_real_iff, add_eq_right, abs_real, abs_eq_zero]

end Scalar

theorem usable_real_iff {x : ℝ} : Usable x ↔ 0 ≤ x := by
  simp [Usable]

end Relaxation
