import Relaxation.Proofs.Linear.Svd3

/-!
# The orthogonal Procrustes problem in space

The overlap of an orthogonal matrix with a given one is largest at the product of the singular
frames. Against a decomposition `u diag(s) vᵀ` with `s.x ≥ s.y ≥ |s.z|`, reflections reach
`s.x + s.y + |s.z|` (`Mat3.IsOrthogonal.overlap_le`) and rotations only `s.x + s.y + s.z`
(`Mat3.IsRotation.overlap_le`).
-/

namespace Relaxation

open Matrix

namespace Mat3

/-! ## Orthogonal matrices entry by entry -/

section Entries

variable {a : Mat3 ℝ}

theorem IsOrthogonal.diag_le_one (ha : a.IsOrthogonal) :
    a.c1.x ≤ 1 ∧ a.c2.y ≤ 1 ∧ |a.c3.z| ≤ 1 := by
  obtain ⟨h₁, h₂, h₃, _⟩ := isOrthogonal_iff_columns.mp ha
  have hx : a.c1.x * a.c1.x ≤ 1 := a.c1.x_mul_self_le_normSq.trans_eq h₁
  have hy : a.c2.y * a.c2.y ≤ 1 := a.c2.y_mul_self_le_normSq.trans_eq h₂
  have hz : a.c3.z * a.c3.z ≤ 1 := a.c3.z_mul_self_le_normSq.trans_eq h₃
  rw [← abs_le_one_iff_mul_self_le_one] at hx hy hz
  exact ⟨(le_abs_self _).trans hx, (le_abs_self _).trans hy, hz⟩

/-- The minors of a rotation are its entries. -/
theorem IsRotation.adjugate (ha : a.IsRotation) : a.toMatrix.adjugate = a.toMatrixᵀ := by
  calc a.toMatrix.adjugate
      = a.toMatrix.adjugate * (a.toMatrix * a.toMatrixᵀ) := by
        rw [ha.orthogonal.mul_transpose, Matrix.mul_one]
    _ = a.toMatrixᵀ := by
        rw [← Matrix.mul_assoc, Matrix.adjugate_mul, det_toMatrix, ha.det_eq_one, one_smul,
          Matrix.one_mul]

/-- A rotation that leaves the first two axes where they are leaves the last one, too. The bound
falls short by four times the square of the last vector component of its quaternion. -/
theorem IsRotation.add_le_one_add (ha : a.IsRotation) : a.c1.x + a.c2.y ≤ 1 + a.c3.z := by
  obtain ⟨h₁, h₂, h₃, _⟩ := isOrthogonal_iff_columns.mp ha.orthogonal
  have hadjugate := ha.adjugate
  rw [Matrix.adjugate_fin_three] at hadjugate
  have minor : ∀ i : Fin 3, _ := fun i => congrFun₂ hadjugate i i
  have hx : a.c2.y * a.c3.z - a.c3.y * a.c2.z = a.c1.x := minor 0
  have hy : a.c1.x * a.c3.z - a.c3.x * a.c1.z = a.c2.y := minor 1
  have hz : a.c1.x * a.c2.y - a.c2.x * a.c1.y = a.c3.z := minor 2
  simp only [Vec3.dot] at h₁ h₂ h₃
  have hsquares : 4 * (1 + a.c3.z - (a.c1.x + a.c2.y)) =
      (1 + a.c3.z - (a.c1.x + a.c2.y)) * (1 + a.c3.z - (a.c1.x + a.c2.y)) +
        (a.c1.y - a.c2.x) * (a.c1.y - a.c2.x) + (a.c1.z + a.c3.x) * (a.c1.z + a.c3.x) +
        (a.c2.z + a.c3.y) * (a.c2.z + a.c3.y) := by
    linear_combination -h₁ - h₂ - h₃ - 2 * hz + 2 * hy + 2 * hx
  have hnonneg : 0 ≤ 4 * (1 + a.c3.z - (a.c1.x + a.c2.y)) := by
    rw [hsquares]
    exact add_nonneg (add_nonneg (add_nonneg (mul_self_nonneg _) (mul_self_nonneg _))
      (mul_self_nonneg _)) (mul_self_nonneg _)
  linarith

theorem IsOrthogonal.normSq_mul (ha : a.IsOrthogonal) (v : Vec3 ℝ) :
    (a * v).normSq = v.normSq := by
  obtain ⟨h₁, h₂, h₃, h₁₂, h₁₃, h₂₃⟩ := isOrthogonal_iff_columns.mp ha
  simp only [Vec3.normSq, Vec3.dot, mul_x, mul_y, mul_z] at *
  linear_combination v.x * v.x * h₁ + v.y * v.y * h₂ + v.z * v.z * h₃ + 2 * v.x * v.y * h₁₂ +
    2 * v.x * v.z * h₁₃ + 2 * v.y * v.z * h₂₃

theorem isOrthogonal_diagonal {d : Vec3 ℝ} (hx : d.x * d.x = 1) (hy : d.y * d.y = 1)
    (hz : d.z * d.z = 1) : (diagonal d).IsOrthogonal := by
  rw [isOrthogonal_iff_columns]
  simp [diagonal, Vec3.dot, hx, hy, hz]

end Entries

/-! ## Overlaps -/

/-- The sum of the products of corresponding entries. -/
noncomputable def overlap (a b : Mat3 ℝ) : ℝ := (a.toMatrixᵀ * b.toMatrix).trace

theorem overlap_zero (a : Mat3 ℝ) : a.overlap 0 = 0 := by
  rw [overlap, toMatrix_zero, Matrix.mul_zero, Matrix.trace_zero]

theorem overlap_add (a b c : Mat3 ℝ) : a.overlap (b + c) = a.overlap b + a.overlap c := by
  rw [overlap, toMatrix_add, Matrix.mul_add, Matrix.trace_add, overlap, overlap]

theorem overlap_outer (a : Mat3 ℝ) (v w : Vec3 ℝ) : a.overlap (outer v w) = (a * w).dot v := by
  rw [overlap, ← toMatrix_transpose, ← toMatrix_mul, trace_toMatrix]
  simp only [trace, mul_c1, mul_c2, mul_c3, mul_x, mul_y, mul_z, transpose, ofRows, outer,
    Vec3.mul_x, Vec3.mul_y, Vec3.mul_z, Vec3.dot]
  ring

theorem overlap_diagonal (a : Mat3 ℝ) (d : Vec3 ℝ) :
    a.overlap (diagonal d) = a.c1.x * d.x + a.c2.y * d.y + a.c3.z * d.z := by
  rw [overlap, toMatrix_diagonal, Matrix.trace_fin_three]
  simp only [Matrix.mul_diagonal]
  rfl

/-- The overlap with a decomposed matrix is seen in the frames of its factors. -/
theorem overlap_recompose (a : Mat3 ℝ) (d : Svd3 ℝ) :
    a.overlap d.recompose = (d.u.transpose * a * d.v).overlap (diagonal d.s) := by
  simp only [overlap, Svd3.recompose, toMatrix_mul, toMatrix_transpose, transpose_mul,
    transpose_transpose]
  rw [Matrix.mul_assoc d.u.toMatrix, ← Matrix.mul_assoc a.toMatrixᵀ, ← Matrix.mul_assoc,
    Matrix.trace_mul_comm]
  simp only [Matrix.mul_assoc]

section Bounds

variable {a : Mat3 ℝ} {d : Svd3 ℝ} (hu : d.u.IsRotation) (hv : d.v.IsRotation)
  (hyx : d.s.y ≤ d.s.x) (hzy : |d.s.z| ≤ d.s.y)

include hu hv hyx hzy

theorem IsOrthogonal.overlap_le (ha : a.IsOrthogonal) :
    a.overlap d.recompose ≤ d.s.x + d.s.y + |d.s.z| := by
  obtain ⟨hx₁, hy₁, hz₁⟩ :=
    ((hu.orthogonal.transpose.mul ha).mul hv.orthogonal).diag_le_one
  rw [overlap_recompose, overlap_diagonal]
  generalize d.u.transpose * a * d.v = q at *
  have hy : 0 ≤ d.s.y := (abs_nonneg _).trans hzy
  have hz : q.c3.z * d.s.z ≤ |d.s.z| := by
    calc q.c3.z * d.s.z
        ≤ |q.c3.z| * |d.s.z| := (le_abs_self _).trans_eq (abs_mul ..)
      _ ≤ 1 * |d.s.z| := mul_le_mul_of_nonneg_right hz₁ (abs_nonneg _)
      _ = |d.s.z| := one_mul _
  have hx := mul_le_of_le_one_left (hy.trans hyx) hx₁
  have hy := mul_le_of_le_one_left hy hy₁
  linarith

/-- A negative last entry makes up for its sign only by as much as the first two lose. -/
theorem IsRotation.overlap_le (ha : a.IsRotation) :
    a.overlap d.recompose ≤ d.s.x + d.s.y + d.s.z := by
  have hrotation := (hu.transpose.mul ha).mul hv
  obtain ⟨hx₁, hy₁, hz₁⟩ := hrotation.orthogonal.diag_le_one
  have hsum := hrotation.add_le_one_add
  rw [overlap_recompose, overlap_diagonal]
  generalize d.u.transpose * a * d.v = q at *
  obtain ⟨hlower, hupper⟩ := abs_le.mp hzy
  have hx : 0 ≤ (1 - q.c1.x) * (d.s.x - d.s.y) :=
    mul_nonneg (sub_nonneg.mpr hx₁) (sub_nonneg.mpr hyx)
  have hy : 0 ≤ (1 + q.c3.z - (q.c1.x + q.c2.y)) * d.s.y :=
    mul_nonneg (sub_nonneg.mpr hsum) ((abs_nonneg _).trans hzy)
  have hz : 0 ≤ (1 - q.c3.z) * (d.s.y + d.s.z) :=
    mul_nonneg (sub_nonneg.mpr ((le_abs_self _).trans hz₁)) (by linarith)
  linear_combination hx + hy + hz

end Bounds

end Mat3
end Relaxation
