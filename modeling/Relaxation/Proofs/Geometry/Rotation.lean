import Mathlib.LinearAlgebra.Span.Basic
import Mathlib.Tactic.LinearCombination
import Relaxation.Geometry.Rotation
import Relaxation.Proofs.Geometry.Mat3

/-!
# Angles and rotations

In exact arithmetic the matrix of a rotation acts by Rodrigues' formula (`Mat3.rotation_mul`). A spoke
is a unit vector at right angles to the axis. Two images of it under rotations make the angle by
which the rotations differ, in the sense of the axis (`Vec3.Spoke.dot_rotations`,
`Vec3.Spoke.cross_rotations`).
-/

namespace Relaxation

namespace Mat3

/-- Rodrigues' formula. -/
theorem rotation_mul (axis v : Vec3 ℝ) (θ : ℝ) :
    rotation axis θ * v = v * Real.cos θ + axis.cross v * Real.sin θ +
      axis * (axis.dot v * (1 - Real.cos θ)) := by
  unfold rotation
  split
  case isTrue h =>
    obtain rfl := Scalar.beq_real_iff.mp h
    ext <;> simp
  case isFalse =>
    ext <;> simp [ofRows, Vec3.cross, Vec3.dot, Scalar.cos, Scalar.sin] <;> ring

end Mat3

namespace Vec3

/-! ## Unit vectors -/

theorem ne_zero_of_unit {v : Vec3 ℝ} (h : v.normSq = 1) : v ≠ 0 := by
  rintro rfl
  exact zero_ne_one (normSq_zero.symm.trans h)

theorem norm_mul_norm {v : Vec3 ℝ} (h : v.normSq = 1) (w : Vec3 ℝ) : (v * w.norm).norm = w.norm := by
  rw [norm_mul, norm_eq_one h, one_mul, abs_of_nonneg w.norm_nonneg]

theorem normalize_of_unit {v : Vec3 ℝ} (h : v.normSq = 1) : v.normalize = v := by
  rw [normalize, norm_eq_one h, Scalar.recip_real, inv_one, mul_real, one_smul]

theorem not_almostZero_of_unit {v : Vec3 ℝ} (h : v.normSq = 1) : ¬v.almostZero 1e-12 = true := by
  intro hsmall
  have hlt := normSq_lt_of_almostZero hsmall
  rw [h] at hlt
  norm_num at hlt

theorem abs_dot_le_one {v w : Vec3 ℝ} (hv : v.normSq = 1) (hw : w.normSq = 1) :
    |v.dot w| ≤ 1 := by
  have h := dot_mul_self_le v w
  rw [hv, hw, one_mul] at h
  exact abs_le_one_iff_mul_self_le_one.mpr h

theorem mul_dot_mul (v w : Vec3 ℝ) (s t : ℝ) : (v * s).dot (w * t) = v.dot w * (s * t) := by
  rw [dot_mul, dot_comm, dot_mul, dot_comm w]
  ring

theorem mul_cross_mul (v w : Vec3 ℝ) (s t : ℝ) : (v * s).cross (w * t) = v.cross w * (s * t) := by
  ext <;> simp only [cross, mul_x, mul_y, mul_z] <;> ring

theorem dot_normalize_right (v w : Vec3 ℝ) : v.dot w.normalize = v.dot w * w.norm⁻¹ := by
  rw [normalize, Scalar.recip_real, dot_mul]

theorem dot_normalize (v w : Vec3 ℝ) :
    v.normalize.dot w.normalize = v.dot w / (v.norm * w.norm) := by
  rw [normalize, normalize, mul_dot_mul, Scalar.recip_real, Scalar.recip_real, ← mul_inv,
    div_eq_mul_inv]

theorem cross_normalize_right (v w : Vec3 ℝ) : v.cross w.normalize = v.cross w * w.norm⁻¹ := by
  rw [normalize, Scalar.recip_real, cross_mul]

theorem cross_normalize (v w : Vec3 ℝ) :
    v.normalize.cross w.normalize = v.cross w * (v.norm⁻¹ * w.norm⁻¹) := by
  rw [normalize, normalize, mul_cross_mul, Scalar.recip_real, Scalar.recip_real]

/-! ## Angles and planes -/

/-- The angle between two vectors. -/
noncomputable def angle (v w : Vec3 ℝ) : ℝ := Real.arccos (v.dot w / (v.norm * w.norm))

theorem cos_angle {v w : Vec3 ℝ} (hv : v ≠ 0) (hw : w ≠ 0) :
    Real.cos (angle v w) = v.normalize.dot w.normalize := by
  rw [angle, ← dot_normalize]
  obtain ⟨hlower, hupper⟩ := abs_le.mp (abs_dot_le_one (normSq_normalize hv) (normSq_normalize hw))
  exact Real.cos_arccos hlower hupper

/-- Lengths do not enter into an angle. -/
theorem angle_mul {v w : Vec3 ℝ} (hv : v.normSq = 1) (hw : w.normSq = 1) {s t : ℝ} (hs : 0 < s)
    (ht : 0 < t) : angle (v * s) (w * t) = Real.arccos (v.dot w) := by
  rw [angle, mul_dot_mul, norm_mul, norm_mul, norm_eq_one hv, norm_eq_one hw, one_mul, one_mul,
    abs_of_pos hs, abs_of_pos ht, mul_div_cancel_right₀ _ (mul_pos hs ht).ne']

/-- Vectors without a normal point the same way or opposite ways. -/
theorem normalize_eq_or_of_cross_eq_zero {v w : Vec3 ℝ} (hv : v ≠ 0) (hw : w ≠ 0)
    (h : v.cross w = 0) : w.normalize = v.normalize ∨ v.normalize + w.normalize = 0 := by
  have hparallel := normSq_cross v.normalize w.normalize
  rw [cross_normalize, h, mul_real, smul_zero, normSq_zero, normSq_normalize hv, normSq_normalize hw]
    at hparallel
  have hdiff : (w.normalize - v.normalize).normSq =
      w.normalize.normSq + v.normalize.normSq - 2 * v.normalize.dot w.normalize := by
    simp only [normSq, dot, sub_x, sub_y, sub_z]
    ring
  have hsum : (v.normalize + w.normalize).normSq =
      w.normalize.normSq + v.normalize.normSq + 2 * v.normalize.dot w.normalize := by
    simp only [normSq, dot, add_x, add_y, add_z]
    ring
  rw [normSq_normalize hv, normSq_normalize hw] at hdiff hsum
  rcases mul_self_eq_one_iff.mp (by linarith : v.normalize.dot w.normalize * _ = 1) with hone | hone
  · exact .inl (sub_eq_zero.mp (eq_zero_of_normSq (by rw [hdiff, hone]; norm_num)))
  · exact .inr (eq_zero_of_normSq (by rw [hsum, hone]; norm_num))

/-- What is at right angles to a normal of two vectors is in their plane. -/
theorem mem_span_of_cross_dot {u v w : Vec3 ℝ} (hcross : u.cross v ≠ 0)
    (h : (u.cross v).dot w = 0) : w ∈ Submodule.span ℝ {u, v} := by
  have hpos := (normSq_pos hcross).ne'
  have hexpand : (u.cross v).normSq • w = ((w.cross v).dot (u.cross v)) • u +
      ((u.cross w).dot (u.cross v)) • v + ((u.cross v).dot w) • u.cross v := by
    simp only [← mul_real]
    ext <;> simp only [cross, normSq, dot, add_x, add_y, add_z, mul_x, mul_y, mul_z] <;> ring
  rw [h, zero_smul, add_zero] at hexpand
  refine Submodule.mem_span_pair.mpr
    ⟨(u.cross v).normSq⁻¹ * (w.cross v).dot (u.cross v),
      (u.cross v).normSq⁻¹ * (u.cross w).dot (u.cross v), ?_⟩
  rw [mul_smul, mul_smul, ← smul_add, ← hexpand, inv_smul_smul₀ hpos]

/-! ## Spokes -/

/-- An axis and a vector at right angles to it, both of unit length. -/
structure Spoke (axis v : Vec3 ℝ) : Prop where
  axis_unit : axis.normSq = 1
  unit : v.normSq = 1
  perpendicular : axis.dot v = 0

namespace Spoke

variable {axis v w : Vec3 ℝ} {θ φ : ℝ}

theorem cross_unit (h : Spoke axis v) : (axis.cross v).normSq = 1 := by
  rw [normSq_cross, h.axis_unit, h.unit, h.perpendicular]
  norm_num

/-- Only what is at right angles to the axis is turned, and that stays in its plane. -/
theorem rotation_mul (h : Spoke axis v) (θ : ℝ) :
    Mat3.rotation axis θ * v = v * Real.cos θ + axis.cross v * Real.sin θ := by
  rw [Mat3.rotation_mul, h.perpendicular, zero_mul, mul_real axis, zero_smul, add_zero]

theorem dot_rotation (h : Spoke axis v) (w : Vec3 ℝ) (θ : ℝ) :
    (Mat3.rotation axis θ * v).dot w = v.dot w * Real.cos θ + (axis.cross v).dot w * Real.sin θ := by
  rw [h.rotation_mul]
  simp only [dot, add_x, add_y, add_z, mul_x, mul_y, mul_z]
  ring

theorem axis_dot_rotation (h : Spoke axis v) (θ : ℝ) : axis.dot (Mat3.rotation axis θ * v) = 0 := by
  rw [dot_comm, h.dot_rotation, cross_dot_left, dot_comm v, h.perpendicular]
  ring

theorem dot_rotations (h : Spoke axis v) (θ φ : ℝ) :
    (Mat3.rotation axis θ * v).dot (Mat3.rotation axis φ * v) = Real.cos (φ - θ) := by
  have hv : v.dot (axis.cross v) = 0 := by
    simp only [dot, cross]
    ring
  have hunit : v.dot v = 1 := h.unit
  have hcross : (axis.cross v).dot (axis.cross v) = 1 := h.cross_unit
  rw [h.dot_rotation, dot_comm v, dot_comm (axis.cross v), h.dot_rotation, h.dot_rotation, hv,
    dot_comm (axis.cross v) v, hv, hunit, hcross, Real.cos_sub]
  ring

theorem normSq_rotation (h : Spoke axis v) (θ : ℝ) : (Mat3.rotation axis θ * v).normSq = 1 := by
  rw [normSq, h.dot_rotations, sub_self, Real.cos_zero]

theorem cross_cross (h : Spoke axis v) : v.cross (axis.cross v) = axis := by
  rw [cross_cross_self, h.unit, h.perpendicular, mul_real, mul_real, one_smul, zero_smul, sub_zero]

theorem cross_rotations (h : Spoke axis v) (θ φ : ℝ) :
    (Mat3.rotation axis θ * v).cross (Mat3.rotation axis φ * v) = axis * Real.sin (φ - θ) := by
  have hexpand : ∀ (w : Vec3 ℝ) (c s c' s' : ℝ),
      (v * c + w * s).cross (v * c' + w * s') = v.cross w * (s' * c - c' * s) := by
    intro w c s c' s'
    ext <;> simp only [cross, add_x, add_y, add_z, mul_x, mul_y, mul_z] <;> ring
  rw [h.rotation_mul, h.rotation_mul, hexpand, h.cross_cross, Real.sin_sub]

/-- A unit vector in the plane of a spoke is what the spoke is turned to by an angle that has the
right cosine and is in the right sense. -/
theorem rotation_eq (h : Spoke axis v) (hw : w.normSq = 1) (hplane : axis.dot w = 0)
    (hcos : v.dot w = Real.cos θ) (hsense : 0 ≤ (axis.cross v).dot w * Real.sin θ) :
    Mat3.rotation axis θ * v = w := by
  have hsin : (axis.cross v).dot w = Real.sin θ := by
    have hgram : (axis.cross v).dot w * (axis.cross v).dot w =
        axis.normSq * (v.normSq * w.normSq - v.dot w * v.dot w) -
          axis.dot v * (axis.dot v * w.normSq - v.dot w * axis.dot w) +
          axis.dot w * (axis.dot v * v.dot w - v.normSq * axis.dot w) := by
      simp only [cross, normSq, dot]
      ring
    rw [h.axis_unit, h.unit, hw, h.perpendicular, hplane, hcos] at hgram
    have hgram : (axis.cross v).dot w * (axis.cross v).dot w = Real.sin θ * Real.sin θ := by
      linear_combination hgram - Real.sin_sq_add_cos_sq θ
    rcases mul_self_eq_mul_self_iff.mp hgram with heq | heq
    · exact heq
    · rw [heq, neg_mul] at hsense
      have hzero : Real.sin θ = 0 := mul_self_eq_zero.mp (by linarith [mul_self_nonneg (Real.sin θ)])
      rw [heq, hzero, neg_zero]
  have hdot : (Mat3.rotation axis θ * v).dot w = 1 := by
    rw [h.dot_rotation, hcos, hsin, ← sq, ← sq, Real.cos_sq_add_sin_sq]
  have hdiff : (Mat3.rotation axis θ * v - w).normSq =
      (Mat3.rotation axis θ * v).normSq + w.normSq - 2 * (Mat3.rotation axis θ * v).dot w := by
    simp only [normSq, dot, sub_x, sub_y, sub_z]
    ring
  rw [h.normSq_rotation, hw, hdot] at hdiff
  exact sub_eq_zero.mp (eq_zero_of_normSq (hdiff.trans (by norm_num)))

end Spoke
end Vec3
end Relaxation
