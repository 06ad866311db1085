import Mathlib.LinearAlgebra.Matrix.Block
import Mathlib.LinearAlgebra.UnitaryGroup
import Relaxation.Geometry.Mat3
import Relaxation.Proofs.Geometry.Vec3

/-!
# Matrices of order three over the reals

A matrix of order three read as a `Matrix`, with the operations of the library as those of
`Matrix`, and the matrices among them that are orthogonal (`Mat3.IsOrthogonal`) or rotations
(`Mat3.IsRotation`).
-/

namespace Relaxation.Mat3

open Matrix

section Components

variable {α : Type} [Scalar α] (a b : Mat3 α) (v : Vec3 α)

@[simp] theorem one_c1 : (1 : Mat3 α).c1 = ⟨1, 0, 0⟩ := rfl

@[simp] theorem one_c2 : (1 : Mat3 α).c2 = ⟨0, 1, 0⟩ := rfl

@[simp] theorem one_c3 : (1 : Mat3 α).c3 = ⟨0, 0, 1⟩ := rfl

@[simp] theorem zero_c1 : (0 : Mat3 α).c1 = 0 := rfl

@[simp] theorem zero_c2 : (0 : Mat3 α).c2 = 0 := rfl

@[simp] theorem zero_c3 : (0 : Mat3 α).c3 = 0 := rfl

@[simp] theorem add_c1 : (a + b).c1 = a.c1 + b.c1 := rfl

@[simp] theorem add_c2 : (a + b).c2 = a.c2 + b.c2 := rfl

@[simp] theorem add_c3 : (a + b).c3 = a.c3 + b.c3 := rfl

@[simp] theorem div_c1 (t : α) : (a / t).c1 = a.c1 / t := rfl

@[simp] theorem div_c2 (t : α) : (a / t).c2 = a.c2 / t := rfl

@[simp] theorem div_c3 (t : α) : (a / t).c3 = a.c3 / t := rfl

@[simp] theorem mul_c1 : (a * b).c1 = a * b.c1 := rfl

@[simp] theorem mul_c2 : (a * b).c2 = a * b.c2 := rfl

@[simp] theorem mul_c3 : (a * b).c3 = a * b.c3 := rfl

@[simp] theorem mul_x : (a * v).x = a.c1.x * v.x + a.c2.x * v.y + a.c3.x * v.z := rfl

@[simp] theorem mul_y : (a * v).y = a.c1.y * v.x + a.c2.y * v.y + a.c3.y * v.z := rfl

@[simp] theorem mul_z : (a * v).z = a.c1.z * v.x + a.c2.z * v.y + a.c3.z * v.z := rfl

end Components

/-! ## As matrices -/

/-- The matrix with the stored columns. -/
def toMatrix {α : Type} (a : Mat3 α) : Matrix (Fin 3) (Fin 3) α :=
  !![a.c1.x, a.c2.x, a.c3.x; a.c1.y, a.c2.y, a.c3.y; a.c1.z, a.c2.z, a.c3.z]

theorem toMatrix_injective {α : Type} : Function.Injective (toMatrix (α := α)) := by
  intro a b h
  have entry := fun i j => congrFun₂ h i j
  exact Mat3.ext (Vec3.ext (entry 0 0) (entry 1 0) (entry 2 0))
    (Vec3.ext (entry 0 1) (entry 1 1) (entry 2 1)) (Vec3.ext (entry 0 2) (entry 1 2) (entry 2 2))

section Operations

variable (a b : Mat3 ℝ) (v w : Vec3 ℝ)

@[simp] theorem toMatrix_one : (1 : Mat3 ℝ).toMatrix = 1 := Matrix.one_fin_three.symm

@[simp] theorem toMatrix_zero : (0 : Mat3 ℝ).toMatrix = 0 := by
  ext i j
  fin_cases i <;> fin_cases j <;> rfl

@[simp] theorem toMatrix_add : (a + b).toMatrix = a.toMatrix + b.toMatrix := by
  ext i j
  fin_cases i <;> fin_cases j <;> rfl

@[simp] theorem toMatrix_mul : (a * b).toMatrix = a.toMatrix * b.toMatrix :=
  (Matrix.mul_fin_three ..).symm

@[simp] theorem toMatrix_transpose : a.transpose.toMatrix = a.toMatrixᵀ := by
  ext i j
  fin_cases i <;> fin_cases j <;> rfl

@[simp] theorem toMatrix_diagonal : (diagonal v).toMatrix = Matrix.diagonal ![v.x, v.y, v.z] := by
  ext i j
  fin_cases i <;> fin_cases j <;> rfl

protected theorem one_mul : 1 * a = a :=
  toMatrix_injective (by rw [toMatrix_mul, toMatrix_one, Matrix.one_mul])

protected theorem mul_one : a * 1 = a :=
  toMatrix_injective (by rw [toMatrix_mul, toMatrix_one, Matrix.mul_one])

theorem transpose_one : (1 : Mat3 ℝ).transpose = 1 :=
  toMatrix_injective (by rw [toMatrix_transpose, toMatrix_one, Matrix.transpose_one])

@[simp] theorem det_toMatrix : a.toMatrix.det = a.det := by
  rw [Matrix.det_fin_three]
  simp only [toMatrix, det, of_apply, cons_val]
  ring

@[simp] theorem trace_toMatrix : a.toMatrix.trace = a.trace := Matrix.trace_fin_three a.toMatrix

/-- The products of the columns with each other. -/
theorem transpose_mul_self :
    a.toMatrixᵀ * a.toMatrix =
      !![a.c1.dot a.c1, a.c1.dot a.c2, a.c1.dot a.c3; a.c2.dot a.c1, a.c2.dot a.c2, a.c2.dot a.c3;
        a.c3.dot a.c1, a.c3.dot a.c2, a.c3.dot a.c3] := by
  rw [← toMatrix_transpose, ← toMatrix_mul]
  rfl

theorem transpose_mul_dot : (a.transpose * v).dot w = (a * w).dot v := by
  simp only [transpose, ofRows, Vec3.dot, mul_x, mul_y, mul_z]
  ring

theorem isUpperTriangular_iff :
    a.toMatrix.IsUpperTriangular ↔ a.c1.y = 0 ∧ a.c1.z = 0 ∧ a.c2.z = 0 := by
  constructor
  · intro h
    exact ⟨h (i := 1) (j := 0) (by decide), h (i := 2) (j := 0) (by decide),
      h (i := 2) (j := 1) (by decide)⟩
  · rintro ⟨h₂₁, h₃₁, h₃₂⟩ i j hij
    fin_cases i <;> fin_cases j <;> first | exact absurd hij (by decide) | assumption

end Operations

/-! ## Orthogonal matrices and rotations -/

/-- The columns are orthonormal. -/
def IsOrthogonal (a : Mat3 ℝ) : Prop := a.toMatrix ∈ Matrix.orthogonalGroup (Fin 3) ℝ

/-- The columns are orthonormal and make up a right-handed frame. -/
def IsRotation (a : Mat3 ℝ) : Prop := a.toMatrix ∈ Matrix.specialOrthogonalGroup (Fin 3) ℝ

variable {a b : Mat3 ℝ}

theorem isOrthogonal_iff : a.IsOrthogonal ↔ a.toMatrixᵀ * a.toMatrix = 1 :=
  Matrix.mem_orthogonalGroup_iff' ..

/-- The columns are unit vectors at right angles. -/
theorem isOrthogonal_iff_columns :
    a.IsOrthogonal ↔ a.c1.dot a.c1 = 1 ∧ a.c2.dot a.c2 = 1 ∧ a.c3.dot a.c3 = 1 ∧
      a.c1.dot a.c2 = 0 ∧ a.c1.dot a.c3 = 0 ∧ a.c2.dot a.c3 = 0 := by
  rw [isOrthogonal_iff, transpose_mul_self, Matrix.one_fin_three]
  constructor
  · intro h
    have entry := fun i j => congrFun₂ h i j
    exact ⟨entry 0 0, entry 1 1, entry 2 2, entry 0 1, entry 0 2, entry 1 2⟩
  · rintro ⟨h1, h2, h3, h12, h13, h23⟩
    rw [Vec3.dot_comm a.c2 a.c1, Vec3.dot_comm a.c3 a.c1, Vec3.dot_comm a.c3 a.c2, h1, h2, h3, h12,
      h13, h23]

theorem isRotation_iff : a.IsRotation ↔ a.IsOrthogonal ∧ a.det = 1 := by
  rw [IsRotation, Matrix.mem_specialOrthogonalGroup_iff, det_toMatrix]
  rfl

theorem IsOrthogonal.mul (ha : a.IsOrthogonal) (hb : b.IsOrthogonal) : (a * b).IsOrthogonal := by
  rw [IsOrthogonal, toMatrix_mul]
  exact mul_mem ha hb

theorem IsOrthogonal.transpose (ha : a.IsOrthogonal) : a.transpose.IsOrthogonal := by
  rw [IsOrthogonal, toMatrix_transpose, Matrix.mem_orthogonalGroup_iff, transpose_transpose]
  exact isOrthogonal_iff.mp ha

theorem IsOrthogonal.mul_transpose (ha : a.IsOrthogonal) : a.toMatrix * a.toMatrixᵀ = 1 :=
  (Matrix.mem_orthogonalGroup_iff ..).mp ha

theorem IsRotation.mul (ha : a.IsRotation) (hb : b.IsRotation) : (a * b).IsRotation := by
  rw [IsRotation, toMatrix_mul]
  exact mul_mem ha hb

theorem IsRotation.orthogonal (ha : a.IsRotation) : a.IsOrthogonal := (isRotation_iff.mp ha).1

theorem IsRotation.det_eq_one (ha : a.IsRotation) : a.det = 1 := (isRotation_iff.mp ha).2

theorem det_transpose (a : Mat3 ℝ) : a.transpose.det = a.det := by
  rw [← det_toMatrix, toMatrix_transpose, Matrix.det_transpose, det_toMatrix]

theorem det_mul (a b : Mat3 ℝ) : (a * b).det = a.det * b.det := by
  rw [← det_toMatrix, toMatrix_mul, Matrix.det_mul, det_toMatrix, det_toMatrix]

theorem IsRotation.transpose (ha : a.IsRotation) : a.transpose.IsRotation :=
  isRotation_iff.mpr ⟨ha.orthogonal.transpose, a.det_transpose.trans ha.det_eq_one⟩

end Relaxation.Mat3
