import Mathlib.Tactic.LinearCombination
import Relaxation.Geometry.Rotation
import Relaxation.Proofs.Geometry.Mat3

/-!
# Quaternions over the reals

A quaternion that is not zero stands for a rotation once it is normalized
(`Quaternion.isRotation_toMat3_normalize`).
-/

namespace Relaxation.Quaternion

open Matrix

variable (q : Quaternion ℝ)

/-- The squared length. -/
noncomputable def normSq : ℝ := q.i * q.i + q.k * q.k + (q.j * q.j + q.w * q.w)

theorem normSq_nonneg : 0 ≤ q.normSq :=
  add_nonneg (add_nonneg (mul_self_nonneg _) (mul_self_nonneg _))
    (add_nonneg (mul_self_nonneg _) (mul_self_nonneg _))

theorem norm_mul_self : q.norm * q.norm = q.normSq := Real.mul_self_sqrt q.normSq_nonneg

variable {q}

theorem normSq_normalize (h : 0 < q.normSq) : q.normalize.normSq = 1 := by
  have hnorm : q.norm * q.norm ≠ 0 := by
    rw [norm_mul_self]
    exact h.ne'
  calc q.normalize.normSq = q.normSq / (q.norm * q.norm) := by
        simp only [normSq, normalize]
        ring
    _ = 1 := by rw [norm_mul_self, div_self h.ne']

/-- A quaternion of any length gives orthogonal columns of one length. -/
theorem transpose_mul_toMat3 (q : Quaternion ℝ) :
    q.toMat3.toMatrixᵀ * q.toMat3.toMatrix = (q.normSq * q.normSq) • 1 := by
  ext i j
  fin_cases i <;> fin_cases j
  all_goals
    simp [Mat3.toMatrix, toMat3, Mat3.ofRows, Matrix.mul_apply, Fin.sum_univ_three, normSq]
    ring

theorem det_toMat3 (q : Quaternion ℝ) : q.toMat3.det = q.normSq * q.normSq * q.normSq := by
  simp only [Mat3.det, toMat3, Mat3.ofRows, normSq, Scalar.ofScientific_real]
  ring

theorem isRotation_toMat3 (h : q.normSq = 1) : q.toMat3.IsRotation := by
  rw [Mat3.isRotation_iff, Mat3.isOrthogonal_iff, transpose_mul_toMat3, det_toMat3, h]
  norm_num

theorem isRotation_toMat3_normalize (h : 0 < q.normSq) : q.normalize.toMat3.IsRotation :=
  isRotation_toMat3 (normSq_normalize h)

end Relaxation.Quaternion
