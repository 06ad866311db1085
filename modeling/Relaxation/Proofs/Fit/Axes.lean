import Mathlib.Data.Real.Basic
import Relaxation.Proofs.Domain.Fit
import Relaxation.Proofs.Fit.Scatter
import Relaxation.Proofs.Goal.Momentum
import Relaxation.Proofs.Linear.Semidefinite

/-!
# Best-fit lines and planes are least-squares fits

The covariance of a point set is positive semidefinite, so its singular vectors are the principal axes
of the points and its singular values the variances along them (`PrincipalAxes.principal_of_ok`). Among
all directions the variance is greatest along the first axis and least along the third one. So the line
along the first axis and the plane across the third one, through the centroid, are as near to the points
as a line and a plane can be (`fits_nearest`).
-/

namespace Relaxation

open Matrix

/-! ## The covariance -/

theorem Mat3.toMatrix_div (a : Mat3 ℝ) (t : ℝ) : (a / t).toMatrix = t⁻¹ • a.toMatrix := by
  ext i j
  fin_cases i <;> fin_cases j <;> exact div_eq_inv_mul _ _

theorem Mat3.posSemidef_outer (v : Vec3 ℝ) : (outer v v).toMatrix.PosSemidef := by
  have houter : (outer v v).toMatrix = vecMulVec ![v.x, v.y, v.z] (star ![v.x, v.y, v.z]) := by
    ext i j
    fin_cases i <;> fin_cases j <;> rfl
  rw [houter]
  exact posSemidef_vecMulVec_self_star _

theorem Mat3.toMatrix_toDense (a : Mat3 ℝ) : a.toDense.toMatrix = a.toMatrix := by
  ext i j
  fin_cases i <;> fin_cases j <;> rfl

section Covariance

variable (c : Vec3 ℝ) (points : List (Vec3 ℝ))

theorem posSemidef_covariance : (covariance c points).toMatrix.PosSemidef := by
  have htotal : (points.foldl (fun acc p => acc + Mat3.outer (p - c) (p - c))
      (0 : Mat3 ℝ)).toMatrix.PosSemidef := by
    refine List.foldlRecOn (motive := fun a : Mat3 ℝ => a.toMatrix.PosSemidef) points _ ?_
      fun a ha p _ => ?_
    · rw [Mat3.toMatrix_zero]
      exact .zero
    · rw [Mat3.toMatrix_add]
      exact ha.add (Mat3.posSemidef_outer _)
  unfold covariance
  dsimp only
  split
  · exact htotal
  · rw [Mat3.toMatrix_div]
    exact htotal.smul (inv_nonneg.mpr (Nat.cast_nonneg _))

/-- The variance in direction `v`, as often as there are points. -/
theorem length_mul_dot_covariance (v : Vec3 ℝ) :
    (points.length : ℝ) * v.dot (covariance c points * v) =
      (points.map fun p => (p - c).dot v ^ 2).sum := by
  have hstep : ∀ (a : Mat3 ℝ) (p : Vec3 ℝ),
      v.dot ((a + Mat3.outer (p - c) (p - c)) * v) = v.dot (a * v) + (p - c).dot v ^ 2 := by
    intro a p
    simp only [Mat3.outer, Vec3.dot, Mat3.mul_x, Mat3.mul_y, Mat3.mul_z, Mat3.add_c1, Mat3.add_c2,
      Mat3.add_c3, Vec3.add_x, Vec3.add_y, Vec3.add_z, Vec3.mul_x, Vec3.mul_y, Vec3.mul_z]
    ring
  have hzero : v.dot ((0 : Mat3 ℝ) * v) = 0 := by simp [Vec3.dot]
  have htotal := apply_foldl_eq_add_sum (f := fun a : Mat3 ℝ => v.dot (a * v)) hstep 0 points
  rw [hzero, zero_add] at htotal
  unfold covariance
  dsimp only
  split
  case isTrue h =>
    rw [List.isEmpty_iff.mp h, List.length_nil, Nat.cast_zero, zero_mul]
    rfl
  case isFalse h =>
    have hcount : (points.length : ℝ) ≠ 0 :=
      Domain.length_ne_zero fun hnil => h (List.isEmpty_iff.mpr hnil)
    rw [← htotal]
    generalize points.foldl (fun acc p => acc + Mat3.outer (p - c) (p - c)) (0 : Mat3 ℝ) = total
    have hdiv : (total / (points.length : ℝ)) * v = total * v / (points.length : ℝ) := by
      ext <;> simp only [Mat3.mul_x, Mat3.mul_y, Mat3.mul_z, Mat3.div_c1, Mat3.div_c2, Mat3.div_c3,
        Vec3.div_x, Vec3.div_y, Vec3.div_z] <;> ring
    rw [hdiv, Vec3.div_real, ← Vec3.mul_real, Vec3.dot_mul, mul_comm, mul_assoc,
      inv_mul_cancel₀ hcount, mul_one]

end Covariance

/-! ## Principal axes -/

/-- The axes are perpendicular unit vectors along which the matrix stretches by the values, the greatest
one first. -/
structure PrincipalAxes.Principal (a : PrincipalAxes ℝ) (c : Mat3 ℝ) : Prop where
  orthogonal : (⟨a.first, a.second, a.third⟩ : Mat3 ℝ).IsOrthogonal
  dot_mul (v : Vec3 ℝ) : v.dot (c * v) = a.values.x * a.first.dot v ^ 2 +
    a.values.y * a.second.dot v ^ 2 + a.values.z * a.third.dot v ^ 2
  second_le : a.values.y ≤ a.values.x
  third_le : a.values.z ≤ a.values.y

/-- A matrix made diagonal stretches a vector along the columns. -/
theorem Mat3.dot_mul_eq_sum {c : Mat3 ℝ} {v : DenseMatrix 3 3 ℝ} {w : Fin 3 → ℝ}
    (h : v.toMatrix * Matrix.diagonal w * v.toMatrixᵀ = c.toMatrix) (x : Vec3 ℝ) :
    x.dot (c * x) = ∑ j, w j * (v.columnVec j).dot x ^ 2 := by
  let y : Fin 3 → ℝ := ![x.x, x.y, x.z]
  have hcolumn : ∀ j, (v.toMatrixᵀ *ᵥ y) j = (v.columnVec j).dot x := by
    intro j
    rw [mulVec, dotProduct, Fin.sum_univ_three]
    rfl
  have happly : ∀ i, (c.toMatrix *ᵥ y) i = ![(c * x).x, (c * x).y, (c * x).z] i := by
    intro i
    rw [mulVec, dotProduct, Fin.sum_univ_three]
    fin_cases i <;> rfl
  calc x.dot (c * x)
      = y ⬝ᵥ c.toMatrix *ᵥ y := by
        rw [dotProduct, Fin.sum_univ_three, happly, happly, happly]
        rfl
    _ = (v.toMatrixᵀ *ᵥ y) ⬝ᵥ Matrix.diagonal w *ᵥ (v.toMatrixᵀ *ᵥ y) := by
        rw [← h, ← mulVec_mulVec, ← mulVec_mulVec, dotProduct_mulVec, ← mulVec_transpose]
    _ = ∑ j, w j * (v.columnVec j).dot x ^ 2 := by
        refine Finset.sum_congr rfl fun j _ => ?_
        rw [mulVec_diagonal, hcolumn]
        ring

theorem Svd.exists_descending_eq (w : Vector ℝ 3) : ∃ i j k, descending w = [i, j, k] ∧
    w.get j ≤ w.get i ∧ w.get k ≤ w.get j := by
  obtain ⟨i, j, k, heq⟩ := List.length_eq_three.mp (length_descending w)
  have hsorted := pairwise_descending w
  rw [heq] at hsorted
  simp only [List.pairwise_cons] at hsorted
  exact ⟨i, j, k, heq, Scalar.le_of_not_totalLt rfl rfl (hsorted.1 j (by simp)).1,
    Scalar.le_of_not_totalLt rfl rfl (hsorted.2.1 k (by simp)).1⟩

namespace PrincipalAxes

theorem ofSvd_eq (c : Vec3 ℝ) {d : Svd 3 3 ℝ} {i j k : Fin 3}
    (h : Svd.descending d.w = [i, j, k]) : ofSvd c d =
      ⟨c, ⟨d.w.get i, d.w.get j, d.w.get k⟩, d.v.columnVec i, d.v.columnVec j, d.v.columnVec k⟩ := by
  have hsorted : d.sorted = ⟨d.u.permuteColumns #v[i, j, k],
      Vector.ofFn fun l => d.w.get (#v[i, j, k].get l), d.v.permuteColumns #v[i, j, k]⟩ := by
    simp only [Svd.sorted, h]
  unfold ofSvd
  rw [hsorted]
  simp only [Domain.columnVec_permuteColumns]
  rfl

/-- Sorting reorders the columns and values alike. -/
theorem principal_ofSvd (center : Vec3 ℝ) {c : Mat3 ℝ} {d : Svd 3 3 ℝ}
    (hproduct : d.v.toMatrix * Matrix.diagonal (fun i => d.w.get i) * d.v.toMatrixᵀ = c.toMatrix)
    (hv : d.v.toMatrixᵀ * d.v.toMatrix = 1) : (ofSvd center d).Principal c := by
  obtain ⟨i, j, k, horder, hij, hjk⟩ := Svd.exists_descending_eq d.w
  have hperm : [i, j, k].Perm (List.finRange 3) := horder ▸ Svd.descending_perm d.w
  have hnodup : [i, j, k].Nodup := horder ▸ Svd.nodup_descending d.w
  simp only [List.nodup_cons, List.mem_cons, List.not_mem_nil, or_false, not_or] at hnodup
  obtain ⟨⟨hne_ij, hne_ik⟩, hne_jk, -⟩ := hnodup
  have hdot := Domain.dot_columnVec hv
  rw [ofSvd_eq center horder]
  refine ⟨Mat3.isOrthogonal_iff_columns.mpr ?_, fun v => ?_, hij, hjk⟩
  · simp only [hdot, if_true, hne_ij, hne_ik, hne_jk, if_false, and_self]
  · have hsum := (hperm.map fun l => d.w.get l * (d.v.columnVec l).dot v ^ 2).sum_eq
    rw [← List.ofFn_eq_map, List.sum_ofFn, ← Mat3.dot_mul_eq_sum hproduct] at hsum
    rw [← hsum]
    simp only [List.map_cons, List.map_nil, List.sum_cons, List.sum_nil, add_zero, add_assoc]

variable {points : List (Vec3 ℝ)} {a : PrincipalAxes ℝ}

theorem principal_of_ok (h : ofPoints points = .ok a) :
    a.Principal (covariance (Vec3.centroid points) points) := by
  obtain ⟨d, hd, h⟩ := Checked.bind_eq_ok.mp h
  cases Checked.pure_eq_ok.mp h
  have hsemidefinite := posSemidef_covariance (Vec3.centroid points) points
  rw [← Mat3.toMatrix_toDense] at hsemidefinite
  obtain ⟨hproduct, hv⟩ := Svd.diagonalizes_of_decompose hd hsemidefinite
  exact principal_ofSvd _ (hproduct.trans (Mat3.toMatrix_toDense _)) hv

/-- The decomposition of a diagonal covariance does not give up. -/
theorem exists_ofPoints_eq_ok {w : Vec3 ℝ}
    (h : covariance (Vec3.centroid points) points = .diagonal w) : ∃ a, ofPoints points = .ok a := by
  obtain ⟨d, hd⟩ := Svd.exists_decompose_eq_ok (le_refl 3) (by decide)
    (a := (Mat3.diagonal w).toDense) fun k j _ _ hkj => by
      rw [Mat3.toMatrix_toDense, Mat3.toMatrix_diagonal]
      exact Matrix.diagonal_apply_ne _ (Fin.val_ne_iff.mp hkj)
  rw [← h] at hd
  refine ⟨ofSvd (Vec3.centroid points) d, ?_⟩
  rw [ofPoints, hd]
  rfl

/-! ## Extents along the axes -/

namespace Principal

variable {c : Mat3 ℝ} (h : a.Principal c)

include h

theorem sum_dot_sq (v : Vec3 ℝ) :
    a.first.dot v ^ 2 + a.second.dot v ^ 2 + a.third.dot v ^ 2 = v.normSq := by
  rw [← h.orthogonal.transpose.normSq_mul v]
  simp only [Mat3.transpose, Mat3.ofRows, Vec3.normSq, Vec3.dot, Mat3.mul_x, Mat3.mul_y, Mat3.mul_z]
  ring

theorem normSq_first : a.first.normSq = 1 := (Mat3.isOrthogonal_iff_columns.mp h.orthogonal).1

theorem dot_mul_le {v : Vec3 ℝ} (hv : v.normSq = 1) : v.dot (c * v) ≤ a.values.x := by
  have hsum := h.sum_dot_sq v
  have hsecond := mul_le_mul_of_nonneg_right h.second_le (sq_nonneg (a.second.dot v))
  have hthird := mul_le_mul_of_nonneg_right (h.third_le.trans h.second_le) (sq_nonneg (a.third.dot v))
  rw [h.dot_mul]
  calc a.values.x * a.first.dot v ^ 2 + a.values.y * a.second.dot v ^ 2 +
        a.values.z * a.third.dot v ^ 2
      ≤ a.values.x * a.first.dot v ^ 2 + a.values.x * a.second.dot v ^ 2 +
          a.values.x * a.third.dot v ^ 2 := add_le_add (add_le_add_right hsecond _) hthird
    _ = a.values.x := by rw [← mul_add, ← mul_add, hsum, hv, mul_one]

theorem le_dot_mul {v : Vec3 ℝ} (hv : v.normSq = 1) : a.values.z ≤ v.dot (c * v) := by
  have hsum := h.sum_dot_sq v
  have hsecond := mul_le_mul_of_nonneg_right h.third_le (sq_nonneg (a.second.dot v))
  have hfirst := mul_le_mul_of_nonneg_right (h.third_le.trans h.second_le) (sq_nonneg (a.first.dot v))
  rw [h.dot_mul]
  calc a.values.z
      = a.values.z * a.first.dot v ^ 2 + a.values.z * a.second.dot v ^ 2 +
          a.values.z * a.third.dot v ^ 2 := by rw [← mul_add, ← mul_add, hsum, hv, mul_one]
    _ ≤ a.values.x * a.first.dot v ^ 2 + a.values.y * a.second.dot v ^ 2 +
          a.values.z * a.third.dot v ^ 2 := add_le_add_left (add_le_add hfirst hsecond) _

theorem dot_mul_first : a.first.dot (c * a.first) = a.values.x := by
  obtain ⟨h₁, -, -, h₁₂, h₁₃, -⟩ := Mat3.isOrthogonal_iff_columns.mp h.orthogonal
  dsimp only at h₁ h₁₂ h₁₃
  rw [h.dot_mul, h₁, Vec3.dot_comm a.second, Vec3.dot_comm a.third, h₁₂, h₁₃]
  ring

/-- Only the third axis is left to a normal of the first two. -/
theorem dot_mul_normal {v : Vec3 ℝ} (hv : v.normSq = 1) (hfirst : a.first.dot v = 0)
    (hsecond : a.second.dot v = 0) : v.dot (c * v) = a.values.z := by
  have hsum := h.sum_dot_sq v
  rw [hfirst, hsecond, hv] at hsum
  rw [h.dot_mul, hfirst, hsecond]
  linear_combination a.values.z * hsum

/-- The variances along the axes add up to those along the coordinate axes. -/
theorem sum_values : a.values.x + a.values.y + a.values.z = c.trace := by
  obtain ⟨h₁, h₂, h₃, -⟩ := Mat3.isOrthogonal_iff_columns.mp h.orthogonal
  have hx := h.dot_mul ⟨1, 0, 0⟩
  have hy := h.dot_mul ⟨0, 1, 0⟩
  have hz := h.dot_mul ⟨0, 0, 1⟩
  simp only [Vec3.dot, Mat3.mul_x, Mat3.mul_y, Mat3.mul_z] at h₁ h₂ h₃ hx hy hz
  rw [Mat3.trace]
  linear_combination -hx - hy - hz - a.values.x * h₁ - a.values.y * h₂ - a.values.z * h₃

theorem spanning : Domain.Spanning a := by
  obtain ⟨h₁, h₂, -, h₁₂, -, -⟩ := Mat3.isOrthogonal_iff_columns.mp h.orthogonal
  exact ⟨Vec3.ne_zero_of_unit h₁, Vec3.ne_zero_of_unit h₂, h₁₂⟩

end Principal

theorem planeFrame_eq (h : a.planeKind = .coplanar ∨ a.planeKind = .general) :
    a.planeFrame = (a.first.normalize, (a.first.normalize.cross a.second).normalize) := by
  unfold planeFrame
  rcases h with h | h <;> rw [h]

/-- A frame of the plane is orthonormal in all cases. -/
theorem planeFrame_orthonormal (h : Domain.Spanning a) : a.planeFrame.1.normSq = 1 ∧
    a.planeFrame.2.normSq = 1 ∧ a.planeFrame.2.dot a.planeFrame.1 = 0 := by
  have hfirst := Vec3.normSq_normalize h.first_ne_zero
  have hne := Vec3.normalize_ne_zero h.first_ne_zero
  unfold planeFrame
  cases a.planeKind with
  | coincident => simp [Vec3.xAxis, Vec3.zAxis, Vec3.normSq, Vec3.dot]
  | colinear =>
    refine ⟨hfirst, Vec3.normSq_normalize (Vec3.perpendicular_ne_zero hne), ?_⟩
    rw [Vec3.dot_comm, Vec3.dot_normalize_right, Vec3.dot_comm, Vec3.perpendicular_dot_self, zero_mul]
  | coplanar | general =>
    refine ⟨hfirst, Vec3.normSq_normalize (Domain.cross_second_ne_zero h), ?_⟩
    rw [Vec3.dot_comm, Vec3.dot_normalize_right, Vec3.dot_comm, Vec3.cross_dot_left, zero_mul]

end PrincipalAxes

/-! ## The fits -/

section Fits

variable {points : List (Vec3 ℝ)} {a : PrincipalAxes ℝ}

theorem spread_eq (points : List (Vec3 ℝ)) (d : Vec3 ℝ) : spread points d =
    points.length * d.dot (covariance (Vec3.centroid points) points * d) :=
  (length_mul_dot_covariance ..).symm

theorem LineFit.exists_axes_of_ok {fit : LineFit ℝ} (h : ofPoints points = .ok fit) :
    ∃ a : PrincipalAxes ℝ, a.Principal (covariance (Vec3.centroid points) points) ∧
      ofAxes a = fit := by
  obtain ⟨a, ha, h⟩ := Checked.bind_eq_ok.mp h
  exact ⟨a, PrincipalAxes.principal_of_ok ha, Checked.pure_eq_ok.mp h⟩

theorem PlaneFit.exists_axes_of_ok {fit : PlaneFit ℝ} (h : ofPoints points = .ok fit) :
    ∃ a : PrincipalAxes ℝ, a.Principal (covariance (Vec3.centroid points) points) ∧
      ofAxes a = fit := by
  obtain ⟨a, ha, h⟩ := Checked.bind_eq_ok.mp h
  exact ⟨a, PrincipalAxes.principal_of_ok ha, Checked.pure_eq_ok.mp h⟩

theorem LineFit.normSq_direction (h : Domain.Spanning a) : (ofAxes a).direction.normSq = 1 := by
  unfold ofAxes
  cases a.lineKind with
  | coincident => simp [Vec3.xAxis, Vec3.normSq, Vec3.dot]
  | colinear | scattered => exact Vec3.normSq_normalize h.first_ne_zero

/-- The variance along the line is the greatest one. -/
theorem LineFit.spread_le (h : a.Principal (covariance (Vec3.centroid points) points))
    (hkind : (ofAxes a).kind ≠ .coincident) {d : Vec3 ℝ} (hd : d.normSq = 1) :
    spread points d ≤ spread points (ofAxes a).direction := by
  have hdirection : (ofAxes a).direction = a.first := by
    have hkind : a.lineKind ≠ .coincident := hkind
    unfold ofAxes
    cases hcase : a.lineKind with
    | coincident => exact absurd hcase hkind
    | colinear | scattered => exact Vec3.normalize_of_unit h.normSq_first
  rw [hdirection, spread_eq, spread_eq, h.dot_mul_first]
  exact mul_le_mul_of_nonneg_left (h.dot_mul_le hd) (Nat.cast_nonneg _)

/-- The variance across the plane is the least one. -/
theorem PlaneFit.le_spread (h : a.Principal (covariance (Vec3.centroid points) points))
    (hkind : (ofAxes a).kind = .coplanar ∨ (ofAxes a).kind = .general) {d : Vec3 ℝ}
    (hd : d.normSq = 1) : spread points (ofAxes a).normal ≤ spread points d := by
  have hunit : (ofAxes a).normal.normSq = 1 :=
    (PrincipalAxes.planeFrame_orthonormal h.spanning).2.1
  have hnormal : (ofAxes a).normal = (a.first.cross a.second).normalize := by
    rw [← Vec3.normalize_of_unit h.normSq_first]
    exact congrArg Prod.snd (PrincipalAxes.planeFrame_eq hkind)
  have hfirst : a.first.dot (ofAxes a).normal = 0 := by
    rw [hnormal, Vec3.dot_normalize_right, Vec3.dot_comm, Vec3.cross_dot_left, zero_mul]
  have hsecond : a.second.dot (ofAxes a).normal = 0 := by
    rw [hnormal, Vec3.dot_normalize_right, Vec3.dot_comm, Vec3.cross_dot_right, zero_mul]
  rw [spread_eq, spread_eq, h.dot_mul_normal hunit hfirst hsecond]
  exact mul_le_mul_of_nonneg_left (h.le_dot_mul hd) (Nat.cast_nonneg _)

theorem PlaneFit.isOrthogonal_axes (h : Domain.Spanning a) :
    (⟨(ofAxes a).xAxis, (ofAxes a).yAxis, (ofAxes a).normal⟩ : Mat3 ℝ).IsOrthogonal := by
  obtain ⟨hx, hn, hperp⟩ := PrincipalAxes.planeFrame_orthonormal h
  have hy : (ofAxes a).yAxis = a.planeFrame.2.cross a.planeFrame.1 := rfl
  have hunit : (a.planeFrame.2.cross a.planeFrame.1).normSq = 1 := by
    rw [Vec3.normSq_cross, hx, hn, hperp, mul_zero, sub_zero, mul_one]
  rw [hy]
  refine Mat3.isOrthogonal_iff_columns.mpr ⟨hx, hunit, hn, ?_, ?_, Vec3.cross_dot_left ..⟩
  · rw [Vec3.dot_comm]
    exact Vec3.cross_dot_right ..
  · rw [Vec3.dot_comm]
    exact hperp

end Fits

end Relaxation
