import Relaxation.Scalar

/-!
# Dense matrices of any size

A matrix applies to a row and a column index. Sums run over the indices in ascending order.
-/

namespace Relaxation

structure DenseMatrix (m n : Nat) (α : Type) where
  rows : Vector (Vector α n) m
  deriving DecidableEq

namespace DenseMatrix

variable {α : Type} {m n p : Nat}

instance : CoeFun (DenseMatrix m n α) fun _ => Fin m → Fin n → α := ⟨fun a i j => a.rows[i][j]⟩

def ofFn (f : Fin m → Fin n → α) : DenseMatrix m n α :=
  ⟨Vector.ofFn fun i => Vector.ofFn fun j => f i j⟩

@[simp] theorem ofFn_apply (f : Fin m → Fin n → α) (i : Fin m) (j : Fin n) :
    ofFn f i j = f i j := by
  simp [ofFn]

def transpose (a : DenseMatrix m n α) : DenseMatrix n m α := ofFn fun i j => a j i

def toLists (a : DenseMatrix m n α) : List (List α) := a.rows.toList.map Vector.toList

variable [Scalar α]

instance : Zero (DenseMatrix m n α) := ⟨ofFn fun _ _ => 0⟩

/-- The sum of `f` over the indices from `start` on. -/
def sumFrom (start : Nat) (f : Fin n → α) : α :=
  Fin.foldl n (fun s k => if start ≤ k then s + f k else s) 0

def mul (a : DenseMatrix m n α) (b : DenseMatrix n p α) : DenseMatrix m p α :=
  ofFn fun i j => Scalar.sum ((List.finRange n).map fun k => a i k * b k j)

instance : HMul (DenseMatrix m n α) (DenseMatrix n p α) (DenseMatrix m p α) := ⟨mul⟩

def diagonal (w : Vector α n) : DenseMatrix n n α := ofFn fun i j => if i = j then w[i] else 0

/-- Turns the columns `i` and `j` by the rotation with cosine `c` and sine `s`. -/
def rotateColumns (a : DenseMatrix m n α) (i j : Fin n) (c s : α) : DenseMatrix m n α :=
  ofFn fun r k =>
    if k = i then a r i * c + a r j * s else if k = j then a r j * c - a r i * s else a r k

def negateColumn (a : DenseMatrix m n α) (j : Fin n) : DenseMatrix m n α :=
  ofFn fun r k => if k = j then -a r k else a r k

/-- The matrix whose column `j` is the column `order[j]` of `a`. -/
def permuteColumns (a : DenseMatrix m n α) (order : Vector (Fin n) n) : DenseMatrix m n α :=
  ofFn fun r j => a r order[j]

end DenseMatrix
end Relaxation
