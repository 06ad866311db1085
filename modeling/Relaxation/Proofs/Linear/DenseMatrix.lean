import Mathlib.Data.Matrix.Basic
import Relaxation.Linear.DenseMatrix
import Relaxation.Proofs.Scalar.Real

/-!
# Dense matrices as matrices

The entries of what the operations on dense matrices give, and over the reals the operations as
those of `Matrix`.
-/

namespace Relaxation

open Matrix

variable {α : Type} {m n p : ℕ}

/-! ## Vectors -/

theorem getElem_eq_get (w : Vector α n) (i : Fin n) (h : i.val < n) :
    GetElem.getElem w i h = w.get i := rfl

theorem getElem_ofFn (f : Fin n → α) (i : Fin n) (h : i.val < n) :
    GetElem.getElem (Vector.ofFn f) i h = f i :=
  Vector.getElem_ofFn h

theorem get_ofFn (f : Fin n → α) (i : Fin n) : (Vector.ofFn f).get i = f i :=
  getElem_ofFn f i i.isLt

@[simp] theorem get_set (w : Vector α n) (i : ℕ) (x : α) (h : i < n) (j : Fin n) :
    (w.set i x h).get j = if i = j.val then x else w.get j :=
  Vector.getElem_set h j.isLt

/-! ## Matrices -/

namespace DenseMatrix

/-- The matrix that is stored row by row. -/
def toMatrix (a : DenseMatrix m n α) : Matrix (Fin m) (Fin n) α := .of fun i j => a i j

theorem toMatrix_apply (a : DenseMatrix m n α) (i : Fin m) (j : Fin n) :
    a.toMatrix i j = a i j := rfl

theorem toMatrix_injective : Function.Injective (toMatrix (α := α) (m := m) (n := n)) := by
  intro a b h
  obtain ⟨rows⟩ := a
  obtain ⟨rows'⟩ := b
  congr 1
  ext i hi j hj
  exact congrFun₂ h ⟨i, hi⟩ ⟨j, hj⟩

@[simp] theorem toMatrix_ofFn (f : Fin m → Fin n → α) : (ofFn f).toMatrix = .of f := by
  ext i j
  exact ofFn_apply f i j

@[simp] theorem toMatrix_transpose (a : DenseMatrix m n α) :
    a.transpose.toMatrix = a.toMatrixᵀ := by
  ext i j
  exact ofFn_apply ..

/-- The entries of `a` read by `f`. -/
def map {β : Type} (f : α → β) (a : DenseMatrix m n α) : DenseMatrix m n β :=
  ofFn fun i j => f (a i j)

theorem map_apply {β : Type} (f : α → β) (a : DenseMatrix m n α) (i : Fin m) (j : Fin n) :
    a.map f i j = f (a i j) :=
  ofFn_apply ..

theorem foldl_add_eq_sum (f : Fin n → ℝ) : Fin.foldl n (fun s k => s + f k) 0 = ∑ k, f k := by
  induction n with
  | zero => simp
  | succ n ih => rw [Fin.foldl_succ_last, ih, Fin.sum_univ_castSucc]

theorem sumFrom_real (start : ℕ) (f : Fin n → ℝ) :
    sumFrom start f = ∑ k : Fin n, if start ≤ k then f k else 0 := by
  rw [← foldl_add_eq_sum, sumFrom]
  congr 1
  funext s k
  split <;> simp

@[simp] theorem toMatrix_mul (a : DenseMatrix m n ℝ) (b : DenseMatrix n p ℝ) :
    (a * b).toMatrix = a.toMatrix * b.toMatrix := by
  ext i j
  change mul a b i j = _
  rw [mul, ofFn_apply, Scalar.sum_real, Matrix.mul_apply, ← List.sum_ofFn, List.ofFn_eq_map]
  rfl

@[simp] theorem toMatrix_diagonal (w : Vector ℝ n) :
    (DenseMatrix.diagonal w).toMatrix = Matrix.diagonal fun i => w.get i := by
  ext i j
  rw [Matrix.diagonal_apply]
  exact ofFn_apply ..

end DenseMatrix
end Relaxation
