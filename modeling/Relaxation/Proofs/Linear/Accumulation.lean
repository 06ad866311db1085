import Relaxation.Proofs.Linear.Bidiagonal

/-!
# The accumulated reflections

Accumulating the reflections of a reduction from the last to the first gives their product. With it
the reduced matrix is a bidiagonal one between matrices of orthonormal columns.
-/

namespace Relaxation

open Matrix

variable {m n : ℕ}

/-- The first `n` unit vectors as columns. -/
noncomputable def unitColumns (m n : ℕ) : Matrix (Fin m) (Fin n) ℝ :=
  .of fun p q => if p.val = q.val then 1 else 0

theorem unitColumns_self : unitColumns n n = 1 := by
  ext p q
  simp only [unitColumns, of_apply, Matrix.one_apply, Fin.ext_iff]

theorem unitColumns_mul_apply (a : Matrix (Fin n) (Fin n) ℝ) (p : Fin m) (q : Fin n) :
    (unitColumns m n * a) p q = if hp : p.val < n then a ⟨p.val, hp⟩ q else 0 := by
  simp only [Matrix.mul_apply, unitColumns, of_apply, ite_mul, one_mul, zero_mul]
  split
  next hp =>
    rw [Finset.sum_eq_single ⟨p.val, hp⟩]
    · exact if_pos rfl
    · exact fun k _ hk => if_neg fun hpk => hk (Fin.ext hpk.symm)
    · exact fun hp => absurd (Finset.mem_univ _) hp
  next hp => exact Finset.sum_eq_zero fun k _ => if_neg fun hpk : p.val = k.val => hp (hpk ▸ k.isLt)

theorem unitColumns_transpose_mul_self (h : n ≤ m) :
    (unitColumns m n)ᵀ * unitColumns m n = 1 := by
  ext p q
  simp only [Matrix.mul_apply, transpose_apply, unitColumns, of_apply, ite_mul, one_mul, zero_mul]
  rw [Finset.sum_eq_single (p.castLE h)]
  · simp only [Matrix.one_apply, Fin.ext_iff, Fin.val_castLE, if_true]
  · exact fun k _ hk => if_neg fun hkp => hk (Fin.ext hkp)
  · exact fun hp => absurd (Finset.mem_univ _) hp

/-- The matrix that a partly accumulated product stands for: it is the identity in the first `i`
rows and columns. -/
noncomputable def accumulated (i : ℕ) (a : DenseMatrix m n ℝ) : Matrix (Fin m) (Fin n) ℝ :=
  .of fun p q =>
    if p.val < i ∨ q.val < i then (if p.val = q.val then 1 else 0) else a.toMatrix p q

theorem accumulated_zero (a : DenseMatrix m n ℝ) : accumulated 0 a = a.toMatrix := by
  ext p q
  simp [accumulated]

theorem accumulated_last (a : DenseMatrix m n ℝ) : accumulated n a = unitColumns m n := by
  ext p q
  simp [accumulated, unitColumns]

theorem sum_mul_accumulated (h : n ≤ m) (i : ℕ) (a : DenseMatrix m n ℝ) (u : Fin m → ℝ)
    (q : Fin n) :
    ∑ k, u k * accumulated i a k q =
      if q.val < i then u (q.castLE h) else ∑ k : Fin m, if i ≤ k.val then u k * a k q else 0 := by
  split
  next hq =>
    rw [Finset.sum_eq_single (q.castLE h)]
    · simp [accumulated, hq]
    · intro k _ hk
      have hk : k.val ≠ q.val := fun hkq => hk (Fin.ext hkq)
      simp [accumulated, hq, hk]
    · exact fun hq => absurd (Finset.mem_univ _) hq
  next hq =>
    refine Finset.sum_congr rfl fun k _ => ?_
    by_cases hk : k.val < i
    · have hkq : k.val ≠ q.val := by omega
      simp [accumulated, hk, hkq]
    · simp [accumulated, hk, hq, not_lt.mp hk, DenseMatrix.toMatrix_apply]

namespace Reduction

/-! ## The reflections of the columns -/

/-- One step multiplies the columns gathered so far by the reflection of its row. -/
theorem accumulated_leftStep (h : n ≤ m) (w : Vector ℝ n) (i : Fin n) (a : DenseMatrix m n ℝ)
    (htop : w.get i ≠ 0 → a.toMatrix (i.castLE h) i ≠ 0) :
    accumulated i (accumulateLeftStep h w i a) =
      reflector (tail (i.castLE h) (a.toMatrix · i)) (a.toMatrix (i.castLE h) i * w.get i) *
        accumulated (i + 1) a := by
  unfold accumulateLeftStep
  simp only [getElem_eq_get w]
  split
  next hw =>
    rw [Scalar.beq_real_iff] at hw
    rw [hw, mul_zero, reflector_zero, Matrix.one_mul]
    ext p q
    simp only [zero_add, accumulated, of_apply, DenseMatrix.ofFn_apply, DenseMatrix.toMatrix_apply,
      Fin.ext_iff, Fin.le_def, Fin.lt_def, Fin.val_castLE]
    split_ifs <;> first | rfl | omega
  next hw =>
    rw [Scalar.beq_real_iff] at hw
    have htop : a (i.castLE h) i ≠ 0 := htop hw
    ext p q
    rw [reflector_mul_apply, sum_mul_accumulated h]
    simp only [accumulated, tail, of_apply, DenseMatrix.ofFn_apply,
      getElem_ofFn, DenseMatrix.sumFrom_real, DenseMatrix.toMatrix_apply, Scalar.recip_real,
      Fin.ext_iff, Fin.le_def, Fin.lt_def, Fin.val_castLE] at htop ⊢
    rcases lt_or_ge p.val i.val with hp | hp
    · simp only [hp, hp.not_ge, Nat.lt_succ_of_lt hp, true_or, if_true, if_false, mul_zero,
        zero_mul, add_zero]
    rcases lt_trichotomy q.val i.val with hq | hq | hq
    · simp only [hq, hq.not_ge, Nat.lt_succ_of_lt hq, or_true, if_true, if_false, mul_zero,
        add_zero]
    · obtain rfl : q = i := Fin.ext hq
      simp only [hp, hp.not_gt, lt_irrefl, le_refl, Nat.lt_succ_self, or_true, or_false, if_true,
        if_false, and_false]
      split <;> field_simp <;> ring
    · have hqi : ¬q.val < i.val + 1 := not_lt.mpr hq
      have hrow : (if p.val < i.val + 1 ∨ q.val < i.val + 1 then
            (if p.val = q.val then 1 else 0) else a.rows[p][q]) =
          if p.val = i.val then 0 else a.rows[p][q] := by
        split_ifs <;> first | rfl | omega
      have hsum : (∑ k : Fin m, if i.val + 1 ≤ k.val then
            (if i.val ≤ k.val then a.rows[k][i] else 0) * a.rows[k][q] else 0) =
          ∑ k : Fin m, if i.val + 1 ≤ k.val then
            a.rows[k][i] * (if k.val = i.val then 0 else a.rows[k][q]) else 0 := by
        refine Finset.sum_congr rfl fun k _ => ?_
        split_ifs <;> first | rfl | omega
      rw [hrow, hsum]
      simp only [hp, hp.not_gt, hq, hq.not_gt, hqi, or_false, lt_irrefl, and_false, and_true,
        if_true, if_false]
      field_simp

theorem accumulateLeftStep_apply_of_lt (h : n ≤ m) (w : Vector ℝ n) (i : Fin n)
    (a : DenseMatrix m n ℝ) {p : Fin m} {q : Fin n} (hpq : p.val < i.val ∨ q.val < i.val) :
    (accumulateLeftStep h w i a).toMatrix p q = a.toMatrix p q := by
  unfold accumulateLeftStep
  dsimp only
  split <;>
  · simp only [DenseMatrix.toMatrix_apply, DenseMatrix.ofFn_apply, Fin.ext_iff, Fin.le_def,
      Fin.lt_def, Fin.val_castLE]
    split_ifs <;> first | rfl | omega

/-- From index `i` on the reflections of the columns are in the product. -/
structure AccumulatesLeft (h : n ≤ m) (r : Reduction m n ℝ) (i : Fin (n + 1))
    (a : DenseMatrix m n ℝ) : Prop where
  frame : ∀ (p : Fin m) (q : Fin n), p.val < i.val ∨ q.val < i.val →
    a.toMatrix p q = r.matrix.toMatrix p q
  product : leftProduct h r i * accumulated i a = leftProduct h r (Fin.last n) * unitColumns m n

/-- The invariant of the loop, which runs from the last row to the first one. -/
theorem accumulatesLeft_step (h : n ≤ m) {r : Reduction m n ℝ} {i : Fin n} {a : DenseMatrix m n ℝ}
    (hstored : Stored h r i) (ha : AccumulatesLeft h r i.succ a) :
    AccumulatesLeft h r i.castSucc (accumulateLeftStep h r.diagonal i a) where
  frame p q hpq := by
    rw [accumulateLeftStep_apply_of_lt h r.diagonal i a hpq]
    exact ha.frame p q (hpq.imp Nat.lt_succ_of_lt Nat.lt_succ_of_lt)
  product := by
    have hcolumn : ∀ p, a.toMatrix p i = r.matrix.toMatrix p i :=
      fun p => ha.frame p i (.inr (Nat.lt_succ_self i))
    have htop : r.diagonal.get i ≠ 0 → a.toMatrix (i.castLE h) i ≠ 0 := by
      rw [hcolumn]
      exact hstored.top_ne_zero
    rw [← ha.product, leftProduct, leftProduct, Fin.partialProd_succ, Matrix.mul_assoc,
      Fin.val_castSucc, accumulated_leftStep h r.diagonal i a htop, left]
    simp only [hcolumn]
    rfl

/-- The first columns of the product of all left reflections. -/
theorem toMatrix_accumulateLeft (h : n ≤ m) {r : Reduction m n ℝ} (hr : ∀ i, Stored h r i) :
    (accumulateLeft h r).toMatrix = leftProduct h r (Fin.last n) * unitColumns m n := by
  have hfinal : AccumulatesLeft h r 0 (accumulateLeft h r) := by
    refine foldr_fin_induction (motive := AccumulatesLeft h r) ⟨fun _ _ _ => rfl, ?_⟩
      fun i a => accumulatesLeft_step h (hr i)
    exact congrArg _ (accumulated_last r.matrix)
  have hproduct := hfinal.product
  rwa [leftProduct, Fin.partialProd_zero, Matrix.one_mul, Fin.val_zero, accumulated_zero]
    at hproduct

/-! ## The reflections of the rows -/

theorem accumulated_bordered (i : Fin n) (v : DenseMatrix n n ℝ) :
    accumulated i (bordered i v) = accumulated (i + 1) v := by
  ext p q
  simp only [accumulated, bordered, of_apply, DenseMatrix.toMatrix_apply, DenseMatrix.ofFn_apply,
    Fin.ext_iff, Fin.lt_def]
  split_ifs <;> first | rfl | omega

/-- As for the left factor, with the reflections of the rows. -/
theorem accumulated_rightStep (h : n ≤ m) (r : Reduction m n ℝ) {i : Fin n} (hl : i.val + 1 < n)
    (v : DenseMatrix n n ℝ) :
    accumulated i (accumulateRightStep h r i ⟨i.val + 1, hl⟩ v) =
      right h r i * accumulated (i + 1) v := by
  rw [right, dif_pos hl]
  unfold accumulateRightStep
  dsimp only
  split
  next he =>
    rw [Scalar.beq_real_iff] at he
    have he : r.superdiagonal[i.val + 1] = 0 := he
    rw [accumulated_bordered, he, mul_zero, reflector_zero, Matrix.one_mul]
  next he =>
    rw [accumulated_bordered]
    ext p q
    rw [reflector_mul_apply, sum_mul_accumulated le_rfl]
    simp only [accumulated, tail, of_apply, DenseMatrix.toMatrix_apply, DenseMatrix.ofFn_apply,
      getElem_ofFn, DenseMatrix.sumFrom_real, Fin.le_def, Fin.lt_def, Fin.val_castLE]
    rcases lt_or_ge p.val (i.val + 1) with hp | hp
    · simp only [hp, hp.not_ge, true_or, if_true, if_false, mul_zero, zero_mul, add_zero]
    rcases lt_or_ge q.val (i.val + 1) with hq | hq
    · simp only [hq, hq.not_ge, or_true, if_true, if_false, mul_zero, add_zero]
    have hip : i.val < p.val := hp
    have hiq : i.val < q.val := hq
    have hsum : (∑ k : Fin n, if i.val + 1 ≤ k.val then
          (if i.val + 1 ≤ k.val then r.matrix.rows[i.castLE h][k] else 0) * v.rows[k][q] else 0) =
        ∑ k : Fin n, if i.val + 1 ≤ k.val then r.matrix.rows[i.castLE h][k] * v.rows[k][q] else 0 :=
      Finset.sum_congr rfl fun k _ => by split_ifs <;> rfl
    rw [hsum]
    simp only [hp, hp.not_gt, hq.not_gt, hip, hiq, or_self, and_self, if_true, if_false,
      Fin.getElem_fin, mul_inv, div_eq_mul_inv]
    ring

/-- From index `i` on the reflections of the rows are in the product. -/
def AccumulatesRight (h : n ≤ m) (r : Reduction m n ℝ) (i : Fin (n + 1)) (v : DenseMatrix n n ℝ) :
    Prop :=
  rightProduct h r i * accumulated i v = rightProduct h r (Fin.last n)

theorem accumulatesRight_step (h : n ≤ m) {r : Reduction m n ℝ} {i : Fin n} {v : DenseMatrix n n ℝ}
    (hv : AccumulatesRight h r i.succ v) :
    AccumulatesRight h r i.castSucc
      (if hl : i.val + 1 < n then accumulateRightStep h r i ⟨i.val + 1, hl⟩ v
        else bordered i v) := by
  rw [AccumulatesRight, ← hv, rightProduct, rightProduct, Fin.partialProd_succ, Matrix.mul_assoc,
    Fin.val_castSucc, Fin.val_succ]
  congr 1
  split
  next hl => exact accumulated_rightStep h r hl v
  next hl => rw [accumulated_bordered, right, dif_neg hl, Matrix.one_mul]

/-- The product of all right reflections. -/
theorem toMatrix_accumulateRight (h : n ≤ m) (r : Reduction m n ℝ) :
    (accumulateRight h r).toMatrix = rightProduct h r (Fin.last n) := by
  have hfinal : AccumulatesRight h r 0 (accumulateRight h r) := by
    refine foldr_fin_induction (motive := AccumulatesRight h r) ?_
      fun i v => accumulatesRight_step h
    rw [AccumulatesRight, Fin.val_last, accumulated_last, unitColumns_self, Matrix.mul_one]
  rwa [AccumulatesRight, rightProduct, Fin.partialProd_zero, Matrix.one_mul, Fin.val_zero,
    accumulated_zero] at hfinal

/-! ## The factors of the reduction -/

/-- When all rows are done, only the two diagonals are left. -/
theorem reduced_last (r : Reduction m n ℝ) :
    reduced n r = unitColumns m n * bidiagonal r.diagonal r.superdiagonal := by
  ext p q
  rw [unitColumns_mul_apply]
  simp only [reduced, bidiagonal, of_apply, q.isLt, if_true]
  split <;> rfl

/-- Reflections are orthogonal, and so are some columns of their product. -/
theorem accumulateLeft_orthonormal (h : n ≤ m) {r : Reduction m n ℝ} (hr : ∀ i, Stored h r i) :
    (accumulateLeft h r).toMatrixᵀ * (accumulateLeft h r).toMatrix = 1 := by
  have hproduct : (leftProduct h r (Fin.last n))ᵀ * leftProduct h r (Fin.last n) = 1 :=
    partialProd_transpose_mul_self fun j _ => by
      rw [left_transpose, (hr j).left_mul_left]
  rw [toMatrix_accumulateLeft h hr, transpose_mul, Matrix.mul_assoc, ← Matrix.mul_assoc _ _
    (unitColumns m n), hproduct, Matrix.one_mul, unitColumns_transpose_mul_self h]

theorem accumulateRight_orthonormal (h : n ≤ m) {r : Reduction m n ℝ} (hr : ∀ i, Stored h r i) :
    (accumulateRight h r).toMatrixᵀ * (accumulateRight h r).toMatrix = 1 := by
  rw [toMatrix_accumulateRight]
  exact partialProd_transpose_mul_self fun j _ => by
    rw [right_transpose, (hr j).right_mul_right]

theorem ofMatrix_stored (h : n ≤ m) (a : DenseMatrix m n ℝ) (i : Fin n) :
    Stored h (ofMatrix h a) i :=
  (reduces_ofMatrix h a).stored i (Fin.castSucc_lt_last i)

/-- A matrix is the bidiagonal one found for it between the accumulated reflections. -/
theorem ofMatrix_product (h : n ≤ m) (a : DenseMatrix m n ℝ) :
    (accumulateLeft h (ofMatrix h a)).toMatrix *
        bidiagonal (ofMatrix h a).diagonal (ofMatrix h a).superdiagonal *
        (accumulateRight h (ofMatrix h a)).toMatrixᵀ = a.toMatrix := by
  have hproduct := (reduces_ofMatrix h a).product
  rwa [Fin.val_last, reduced_last, ← Matrix.mul_assoc,
    ← toMatrix_accumulateLeft h (ofMatrix_stored h a), ← toMatrix_accumulateRight] at hproduct

end Reduction
end Relaxation
