import Relaxation.Linear.Svd3
import Relaxation.Proofs.Geometry.Quaternion

/-!
# Jacobi rotations

Each rotation of a diagonalization of order three multiplies the quaternion by one that is not zero,
whatever the angle, so the quaternion stays a rotation throughout (`Jacobi.normSq_diagonalize_pos`).
-/

namespace Relaxation

theorem Quaternion.normSq_turn (axis : Axis) (ch sh : ℝ) (q : Quaternion ℝ) :
    (q.turn axis ch sh).normSq = (ch * ch + sh * sh) * q.normSq := by
  cases axis <;> simp only [turn, normSq] <;> ring

namespace Symmetric3

theorem fourGammaSquared_pos : 0 < (fourGammaSquared : ℝ) := by
  rw [fourGammaSquared, Scalar.ofScientific_real]
  norm_num

theorem cosPiOverEight_pos : 0 < (cosPiOverEight : ℝ) := by
  rw [cosPiOverEight, Scalar.ofScientific_real]
  norm_num

theorem lengthSq_pos {ch sh : ℝ} (h : fourGammaSquared * sh * sh < ch * ch) :
    0 < ch * ch + sh * sh := by
  refine add_pos_of_pos_of_nonneg (lt_of_le_of_lt ?_ h) (mul_self_nonneg sh)
  rw [mul_assoc]
  exact mul_nonneg fourGammaSquared_pos.le (mul_self_nonneg sh)

/-- Cosine and sine of an approximate half-angle do not vanish together. -/
theorem approximateGivens_pos {a11 a12 a22 ch sh : ℝ}
    (h : approximateGivens a11 a12 a22 = (ch, sh)) : 0 < ch * ch + sh * sh := by
  unfold approximateGivens at h
  dsimp only at h
  generalize 2.0 * (a11 - a22) = d at h
  split at h
  case isTrue hlt =>
    obtain ⟨rfl, rfl⟩ := Prod.mk.inj h
    have hlen := lengthSq_pos hlt
    have hw : 0 < Scalar.recip (Scalar.sqrt (d * d + a12 * a12)) := by
      rw [Scalar.recip_real, Scalar.sqrt_real]
      exact inv_pos.mpr (Real.sqrt_pos.mpr hlen)
    refine lt_of_lt_of_eq (mul_pos (mul_pos hw hw) hlen) ?_
    ring
  case isFalse =>
    obtain ⟨rfl, rfl⟩ := Prod.mk.inj h
    exact add_pos_of_pos_of_nonneg (mul_pos cosPiOverEight_pos cosPiOverEight_pos)
      (mul_self_nonneg _)

end Symmetric3

namespace Jacobi

theorem normSq_step_pos (axis : Axis) {j : Jacobi ℝ} (h : 0 < j.rotation.normSq) :
    0 < (j.step axis).rotation.normSq := by
  rcases hgivens : Symmetric3.approximateGivens j.matrix.s11 j.matrix.s21 j.matrix.s22
    with ⟨ch, sh⟩
  simp only [step, hgivens, Quaternion.normSq_turn]
  exact mul_pos (Symmetric3.approximateGivens_pos hgivens) h

theorem normSq_sweep_pos {j : Jacobi ℝ} (h : 0 < j.rotation.normSq) :
    0 < j.sweep.rotation.normSq :=
  normSq_step_pos .y (normSq_step_pos .x (normSq_step_pos .z h))

theorem normSq_repeat_pos {j : Jacobi ℝ} (h : 0 < j.rotation.normSq) (n : ℕ) :
    0 < (Nat.repeat sweep n j).rotation.normSq := by
  induction n with
  | zero => exact h
  | succ n ih => exact normSq_sweep_pos ih

theorem normSq_diagonalize_pos (s : Symmetric3 ℝ) : 0 < (diagonalize s).rotation.normSq :=
  normSq_repeat_pos (by simp [Quaternion.identity, Quaternion.normSq]) sweeps

/-! ### Diagonal matrices -/

/-- Between two different entries of a diagonal matrix there is nothing to annihilate. -/
theorem step_diagonal (axis : Axis) {x y z w : ℝ} (h : x ≠ y) :
    ∃ w', w' * w' = w * w ∧
      step axis ⟨⟨x, 0, y, 0, 0, z⟩, ⟨0, 0, 0, w⟩⟩ = ⟨⟨y, 0, z, 0, 0, x⟩, ⟨0, 0, 0, w'⟩⟩ := by
  have hd : 2.0 * (x - y) ≠ 0 := by
    rw [Scalar.ofScientific_real]
    exact mul_ne_zero (by norm_num) (sub_ne_zero.mpr h)
  have hgivens : ∃ c : ℝ, c * c = 1 ∧ Symmetric3.approximateGivens x 0 y = (c, 0) := by
    unfold Symmetric3.approximateGivens
    generalize 2.0 * (x - y) = d at hd
    have hlt : Symmetric3.fourGammaSquared * 0 * 0 < d * d := by
      rw [mul_zero]
      exact mul_self_pos.mpr hd
    refine ⟨Scalar.recip (Scalar.sqrt (d * d + 0 * 0)) * d, ?_, ?_⟩
    · rw [mul_zero, add_zero, Scalar.recip_real, Scalar.sqrt_real, Real.sqrt_mul_self_eq_abs,
        mul_mul_mul_comm, ← mul_inv, abs_mul_abs_self, inv_mul_cancel₀ (mul_self_ne_zero.mpr hd)]
    · dsimp only
      rw [if_pos hlt]
      exact Prod.ext rfl (mul_zero _)
  obtain ⟨c, hc, hgivens⟩ := hgivens
  refine ⟨w * c, by rw [mul_mul_mul_comm, hc, mul_one], ?_⟩
  simp only [step, hgivens, Symmetric3.conjugate, Symmetric3.relabel, mul_zero, zero_mul, add_zero,
    sub_zero, hc, div_one, neg_zero, one_mul]
  cases axis <;> simp [Quaternion.turn]

theorem repeat_diagonal {x y z w : ℝ} (hxy : x ≠ y) (hyz : y ≠ z) (hzx : z ≠ x) (n : ℕ) :
    ∃ w', w' * w' = w * w ∧
      Nat.repeat sweep n ⟨⟨x, 0, y, 0, 0, z⟩, ⟨0, 0, 0, w⟩⟩ =
        ⟨⟨x, 0, y, 0, 0, z⟩, ⟨0, 0, 0, w'⟩⟩ := by
  induction n with
  | zero => exact ⟨w, rfl, rfl⟩
  | succ n ih =>
    obtain ⟨w₀, hw₀, hrepeat⟩ := ih
    obtain ⟨w₁, hw₁, hz⟩ := step_diagonal .z (z := z) (w := w₀) hxy
    obtain ⟨w₂, hw₂, hx⟩ := step_diagonal .x (z := x) (w := w₁) hyz
    obtain ⟨w₃, hw₃, hy⟩ := step_diagonal .y (z := y) (w := w₂) hzx
    exact ⟨w₃, hw₃.trans (hw₂.trans (hw₁.trans hw₀)), by
      rw [Nat.repeat, hrepeat, sweep, hz, hx, hy]⟩

end Jacobi

/-- A diagonal matrix is not turned, as long as its entries differ in magnitude. -/
theorem Svd3.rightRotation_diagonal {d : Vec3 ℝ} (hxy : d.x * d.x ≠ d.y * d.y)
    (hyz : d.y * d.y ≠ d.z * d.z) (hzx : d.z * d.z ≠ d.x * d.x) :
    rightRotation (Mat3.diagonal d) = 1 := by
  have hlower : Symmetric3.ofMat3 ((Mat3.diagonal d).transpose * Mat3.diagonal d) =
      ⟨d.x * d.x, 0, d.y * d.y, 0, 0, d.z * d.z⟩ := by
    ext <;> simp [Symmetric3.ofMat3, Mat3.transpose, Mat3.diagonal, Mat3.ofRows]
  obtain ⟨w, hw, hrepeat⟩ := Jacobi.repeat_diagonal (w := 1) hxy hyz hzx Jacobi.sweeps
  have hnorm : Quaternion.norm (⟨0, 0, 0, w⟩ : Quaternion ℝ) = 1 := by
    simp [Quaternion.norm, hw]
  have hw : w * w = 1 := hw.trans (one_mul 1)
  rw [rightRotation, hlower, Jacobi.diagonalize, Quaternion.identity, hrepeat,
    Quaternion.normalize, hnorm]
  ext <;> simp [Quaternion.toMat3, Mat3.ofRows, hw]

theorem Svd3.isRotation_rightRotation (a : Mat3 ℝ) : (rightRotation a).IsRotation :=
  Quaternion.isRotation_toMat3_normalize (Jacobi.normSq_diagonalize_pos _)

end Relaxation
