import Relaxation.Linear.DenseMatrix

/-!
# Reduction to bidiagonal form

Householder reflections from the left and the right bring a matrix with at least as many rows as
columns to upper bidiagonal form. `Reduction` holds the reflection vectors in the place of the
entries they annihilate, as `accumulateLeft` and `accumulateRight` expect them, beside the
diagonal and the superdiagonal.
-/

namespace Relaxation

/-- A partly reduced matrix: `matrix` holds the reflection vectors and the part still to be
reduced, `diagonal` and `superdiagonal` the entries found so far, and `size` the largest
absolute column sum of the bidiagonal part. -/
structure Reduction (m n : Nat) (α : Type) where
  matrix : DenseMatrix m n α
  diagonal : Vector α n
  superdiagonal : Vector α n
  size : α

namespace Reduction

variable {α : Type} [Scalar α] {m n : Nat}

open DenseMatrix Scalar

/-- Reflects the part of column `i` from the diagonal down onto the diagonal, and the columns
after it alongside. The result is the new matrix with the diagonal entry; a zero column stays. -/
def reflectColumn (h : n ≤ m) (a : DenseMatrix m n α) (i : Fin n) : DenseMatrix m n α × α :=
  let top : Fin m := i.castLE h
  let scale := sumFrom i.val fun k => abs (a k i)
  if scale == 0 then (a, 0)
  else
    let x : Vector α m := Vector.ofFn fun k => a k i / scale
    let s := sumFrom i.val fun k : Fin m => x[k] * x[k]
    let f := x[top]
    let g := -withSignOf (sqrt s) f
    let divisor := f * g - s
    let v : Vector α m := Vector.ofFn fun k => if k = top then f - g else x[k]
    let share : Vector α n := Vector.ofFn fun j =>
      if i < j then sumFrom i.val (fun k : Fin m => v[k] * a k j) / divisor else 0
    let reflected := ofFn fun k j =>
      if k < top then a k j
      else if j = i then v[k] * scale
      else if i < j then a k j + share[j] * v[k]
      else a k j
    (reflected, scale * g)

/-- Reflects the part of row `i` right of the diagonal onto its first entry, in column `l`, and
the rows below alongside. The result is the new matrix with the superdiagonal entry. -/
def reflectRow (h : n ≤ m) (a : DenseMatrix m n α) (i l : Fin n) : DenseMatrix m n α × α :=
  let row : Fin m := i.castLE h
  let scale := sumFrom l.val fun k => abs (a row k)
  if scale == 0 then (a, 0)
  else
    let x : Vector α n := Vector.ofFn fun k => a row k / scale
    let s := sumFrom l.val fun k : Fin n => x[k] * x[k]
    let f := x[l]
    let g := -withSignOf (sqrt s) f
    let divisor := f * g - s
    let v : Vector α n := Vector.ofFn fun k => if k = l then f - g else x[k]
    let share : Vector α m := Vector.ofFn fun j =>
      if row < j then sumFrom l.val (fun k : Fin n => a j k * v[k]) else 0
    let reflected := ofFn fun j k =>
      if k < l then a j k
      else if j = row then v[k] * scale
      else if row < j then a j k + share[j] * (v[k] / divisor)
      else a j k
    (reflected, scale * g)

/-- Settles the diagonal entry `i` and the superdiagonal entry after it. -/
def step (h : n ≤ m) (r : Reduction m n α) (i : Fin n) : Reduction m n α :=
  let (a, d) := reflectColumn h r.matrix i
  let size := Scalar.max r.size (abs d + abs r.superdiagonal[i])
  if hl : i.val + 1 < n then
    let l : Fin n := ⟨i.val + 1, hl⟩
    let (a, e) := reflectRow h a i l
    ⟨a, r.diagonal.set i d, r.superdiagonal.set l e, size⟩
  else ⟨a, r.diagonal.set i d, r.superdiagonal, size⟩

/-- The bidiagonal form of `a`. -/
def ofMatrix (h : n ≤ m) (a : DenseMatrix m n α) : Reduction m n α :=
  Fin.foldl n (step h) ⟨a, Vector.replicate n 0, Vector.replicate n 0, 0⟩

/-- The matrix `v` with row and column `i` replaced, from the diagonal on, by those of the
identity. -/
def bordered (i : Fin n) (v : DenseMatrix n n α) : DenseMatrix n n α :=
  ofFn fun k j =>
    if k = i ∧ j = i then 1 else if k = i ∧ i < j ∨ j = i ∧ i < k then 0 else v k j

/-- Multiplies the reflection of row `i`, whose first entry is in column `l`, into the product of
the later ones. -/
def accumulateRightStep (h : n ≤ m) (r : Reduction m n α) (i l : Fin n)
    (v : DenseMatrix n n α) : DenseMatrix n n α :=
  let row : Fin m := i.castLE h
  let g := r.superdiagonal[l]
  if g == 0 then bordered i v
  else
    let column : Vector α n := Vector.ofFn fun k => (r.matrix row k / r.matrix row l) / g
    let share : Vector α n := Vector.ofFn fun j =>
      sumFrom l.val fun k : Fin n => r.matrix row k * v k j
    bordered i (ofFn fun k j => if i < k ∧ i < j then v k j + share[j] * column[k] else v k j)

/-- The product of the reflections from the right. -/
def accumulateRight (h : n ≤ m) (r : Reduction m n α) : DenseMatrix n n α :=
  Fin.foldr n
    (fun i v =>
      if hl : i.val + 1 < n then accumulateRightStep h r i ⟨i.val + 1, hl⟩ v else bordered i v)
    0

/-- Multiplies the reflection of column `i` into the product of the later ones. -/
def accumulateLeftStep (h : n ≤ m) (diagonal : Vector α n) (i : Fin n)
    (a : DenseMatrix m n α) : DenseMatrix m n α :=
  let top : Fin m := i.castLE h
  let a := ofFn fun k j => if k = top ∧ i < j then 0 else a k j
  if diagonal[i] == 0 then
    ofFn fun k j => if j = i ∧ top ≤ k then (if k = top then 0 + 1 else 0) else a k j
  else
    let inverse := recip diagonal[i]
    let share : Vector α n := Vector.ofFn fun j =>
      (sumFrom (i.val + 1) (fun k : Fin m => a k i * a k j) / a top i) * inverse
    ofFn fun k j =>
      if k < top ∨ j < i then a k j
      else if i < j then a k j + share[j] * a k i
      else if k = top then a k i * inverse + 1
      else a k i * inverse

/-- The product of the reflections from the left, applied to the first `n` unit vectors. -/
def accumulateLeft (h : n ≤ m) (r : Reduction m n α) : DenseMatrix m n α :=
  Fin.foldr n (accumulateLeftStep h r.diagonal) r.matrix

end Reduction
end Relaxation
