import Mathlib.LinearAlgebra.Matrix.NonsingularInverse
import Mathlib.Tactic.LinearCombination
import Relaxation.Proofs.Linear.DenseMatrix

/-!
# Rotations of two axes

A matrix stays the product of its factors when a rotation of two columns of the left factor meets
the same rotation of two rows of the middle one, and likewise on the right.
-/

namespace Relaxation

open Matrix

variable {m n : ℕ}

/-- The rotation with cosine `c` and sine `s` takes the pair of `a` and `b` to that of `z` and
zero. -/
structure Rotates (a b c s z : ℝ) : Prop where
  unit : c * c + s * s = 1
  length : a * c + b * s = z
  vanishes : b * c - a * s = 0

theorem Rotates.zero {c s : ℝ} (h : c * c + s * s = 1) : Rotates 0 0 c s 0 where
  unit := h
  length := by ring
  vanishes := by ring

theorem Rotates.of_mul_self {a b z : ℝ} (hz : z * z = a * a + b * b) (hne : z ≠ 0) :
    Rotates a b (a * z⁻¹) (b * z⁻¹) z where
  unit := by
    field_simp
    linear_combination -hz
  length := by
    field_simp
    linear_combination -hz
  vanishes := by ring

/-- The rotation of the axes `i` and `j` with cosine `c` and sine `s`. -/
noncomputable def planeRotation (i j : Fin n) (c s : ℝ) : Matrix (Fin n) (Fin n) ℝ :=
  .of fun k q =>
    if q = i then (if k = i then c else if k = j then s else 0)
    else if q = j then (if k = j then c else if k = i then -s else 0)
    else if k = q then 1 else 0

theorem mul_planeRotation_apply {i j : Fin n} (hij : i ≠ j) (c s : ℝ) (a : Matrix (Fin m) (Fin n) ℝ)
    (p : Fin m) (q : Fin n) :
    (a * planeRotation i j c s) p q =
      if q = i then a p i * c + a p j * s else if q = j then a p j * c - a p i * s else a p q := by
  rw [Matrix.mul_apply]
  by_cases hq : q = i ∨ q = j
  · rw [Fintype.sum_eq_add i j hij fun k hk => ?_]
    · rcases hq with rfl | rfl
      · simp [planeRotation, hij.symm]
      · simp [planeRotation, hij, hij.symm]
        ring
    · simp [planeRotation, hk.1, hk.2]
      rintro h1 h2 rfl
      exact absurd hq (not_or.mpr ⟨h1, h2⟩)
  · obtain ⟨hqi, hqj⟩ := not_or.mp hq
    rw [Fintype.sum_eq_single q fun k hk => ?_]
    · simp [planeRotation, hqi, hqj]
    · simp [planeRotation, hqi, hqj, hk]

theorem toMatrix_rotateColumns {i j : Fin n} (hij : i ≠ j) (c s : ℝ) (a : DenseMatrix m n ℝ) :
    (a.rotateColumns i j c s).toMatrix = a.toMatrix * planeRotation i j c s := by
  ext p q
  rw [mul_planeRotation_apply hij]
  exact DenseMatrix.ofFn_apply ..

theorem planeRotation_transpose_mul_self {i j : Fin n} (hij : i ≠ j) {c s : ℝ}
    (hcs : c * c + s * s = 1) : (planeRotation i j c s)ᵀ * planeRotation i j c s = 1 := by
  ext p q
  rw [mul_planeRotation_apply hij]
  rcases eq_or_ne q i with rfl | hqi
  · rcases eq_or_ne p q with rfl | hpi
    · simpa [planeRotation, hij.symm] using hcs
    · rcases eq_or_ne p j with rfl | hpj
      · simp [planeRotation, hpi, hpi.symm]
        ring
      · simp [planeRotation, hpi, hpi.symm, hpj, hpj.symm]
  rcases eq_or_ne q j with rfl | hqj
  · rcases eq_or_ne p q with rfl | hpj
    · simpa [planeRotation, hqi, hij] using hcs
    · rcases eq_or_ne p i with rfl | hpi
      · simp [planeRotation, hpj, hqi]
        ring
      · simp [planeRotation, hpi, hpi.symm, hpj, hpj.symm]
  · rw [if_neg hqi, if_neg hqj, transpose_apply, planeRotation, of_apply, Matrix.one_apply]
    rcases eq_or_ne p i with rfl | hpi
    · simp [hqi, hqi.symm, hqj]
    rcases eq_or_ne p j with rfl | hpj
    · simp [hqi, hqj, hqj.symm, hpi]
    · simp only [hpi, hpj, if_false, eq_comm]

theorem planeRotation_transpose_mul_apply {i j : Fin n} (hij : i ≠ j) (c s : ℝ)
    (b : Matrix (Fin n) (Fin m) ℝ) (p : Fin n) (q : Fin m) :
    ((planeRotation i j c s)ᵀ * b) p q =
      if p = i then b i q * c + b j q * s else if p = j then b j q * c - b i q * s else b p q := by
  rw [← transpose_transpose b, ← transpose_mul]
  exact mul_planeRotation_apply hij c s bᵀ q p

/-- The matrix that turns the sign of the axis `j`. -/
noncomputable def axisReflection (j : Fin n) : Matrix (Fin n) (Fin n) ℝ :=
  Matrix.diagonal fun q => if q = j then -1 else 1

theorem mul_axisReflection_apply (j : Fin n) (a : Matrix (Fin m) (Fin n) ℝ) (p : Fin m)
    (q : Fin n) : (a * axisReflection j) p q = if q = j then -a p q else a p q := by
  rw [axisReflection, Matrix.mul_diagonal]
  split
  · rw [mul_neg_one]
  · rw [mul_one]

theorem toMatrix_negateColumn (j : Fin n) (a : DenseMatrix m n ℝ) :
    (a.negateColumn j).toMatrix = a.toMatrix * axisReflection j := by
  ext p q
  rw [mul_axisReflection_apply]
  exact DenseMatrix.ofFn_apply ..

theorem axisReflection_transpose_mul_self (j : Fin n) :
    (axisReflection j)ᵀ * axisReflection j = 1 := by
  rw [axisReflection, diagonal_transpose, diagonal_mul_diagonal, ← diagonal_one]
  congr 1
  funext q
  split <;> norm_num

/-! ## Factors -/

/-- The matrix `a` is `u * b * vᵀ`, where `u` and `v` have orthonormal columns. -/
structure Factorization (a : Matrix (Fin m) (Fin n) ℝ) (u : Matrix (Fin m) (Fin n) ℝ)
    (b v : Matrix (Fin n) (Fin n) ℝ) : Prop where
  product : u * b * vᵀ = a
  left_orthonormal : uᵀ * u = 1
  right_orthonormal : vᵀ * v = 1

namespace Factorization

variable {a : Matrix (Fin m) (Fin n) ℝ} {b b' : Matrix (Fin n) (Fin n) ℝ}

theorem mul_left {u : Matrix (Fin m) (Fin n) ℝ} {v g : Matrix (Fin n) (Fin n) ℝ}
    (h : Factorization a u b v) (hg : gᵀ * g = 1) : Factorization a (u * g) (gᵀ * b) v where
  product := by
    rw [← h.product, ← Matrix.mul_assoc (u * g), Matrix.mul_assoc u g, mul_eq_one_comm.mp hg,
      Matrix.mul_one]
  left_orthonormal := by
    rw [transpose_mul, Matrix.mul_assoc, ← Matrix.mul_assoc uᵀ, h.left_orthonormal,
      Matrix.one_mul, hg]
  right_orthonormal := h.right_orthonormal

theorem mul_right {u : Matrix (Fin m) (Fin n) ℝ} {v g : Matrix (Fin n) (Fin n) ℝ}
    (h : Factorization a u b v) (hg : gᵀ * g = 1) : Factorization a u (b * g) (v * g) where
  product := by
    rw [← h.product, transpose_mul, ← Matrix.mul_assoc, ← Matrix.mul_assoc,
      Matrix.mul_assoc (u * b) g, mul_eq_one_comm.mp hg, Matrix.mul_one]
  left_orthonormal := h.left_orthonormal
  right_orthonormal := by
    rw [transpose_mul, Matrix.mul_assoc, ← Matrix.mul_assoc vᵀ, h.right_orthonormal,
      Matrix.one_mul, hg]

variable {u : DenseMatrix m n ℝ} {v : DenseMatrix n n ℝ} {i j : Fin n} {c s : ℝ}

/-- The rows of the middle factor turn with the columns of the left one. -/
theorem rotate_left (h : Factorization a u.toMatrix b v.toMatrix) (hij : i ≠ j)
    (hcs : c * c + s * s = 1)
    (hb : ∀ p q, b' p q =
      if p = i then b i q * c + b j q * s else if p = j then b j q * c - b i q * s else b p q) :
    Factorization a (u.rotateColumns i j c s).toMatrix b' v.toMatrix := by
  have hmiddle : (planeRotation i j c s)ᵀ * b = b' := by
    ext p q
    rw [planeRotation_transpose_mul_apply hij, hb]
  rw [toMatrix_rotateColumns hij, ← hmiddle]
  exact h.mul_left (planeRotation_transpose_mul_self hij hcs)

/-- The columns of the middle factor turn with those of the right one. -/
theorem rotate_right (h : Factorization a u.toMatrix b v.toMatrix) (hij : i ≠ j)
    (hcs : c * c + s * s = 1)
    (hb : ∀ p q, b' p q =
      if q = i then b p i * c + b p j * s else if q = j then b p j * c - b p i * s else b p q) :
    Factorization a u.toMatrix b' (v.rotateColumns i j c s).toMatrix := by
  have hmiddle : b * planeRotation i j c s = b' := by
    ext p q
    rw [mul_planeRotation_apply hij, hb]
  rw [toMatrix_rotateColumns hij, ← hmiddle]
  exact h.mul_right (planeRotation_transpose_mul_self hij hcs)

theorem negate_right (h : Factorization a u.toMatrix b v.toMatrix)
    (hb : ∀ p q, b' p q = if q = j then -b p q else b p q) :
    Factorization a u.toMatrix b' (v.negateColumn j).toMatrix := by
  have hmiddle : b * axisReflection j = b' := by
    ext p q
    rw [mul_axisReflection_apply, hb]
  rw [toMatrix_negateColumn, ← hmiddle]
  exact h.mul_right (axisReflection_transpose_mul_self j)

end Factorization
end Relaxation
