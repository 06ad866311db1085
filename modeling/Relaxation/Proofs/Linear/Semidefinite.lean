import Mathlib.Analysis.CStarAlgebra.Matrix
import Mathlib.Analysis.Matrix.Order
import Mathlib.Analysis.SpecialFunctions.ContinuousFunctionalCalculus.Rpow.Basic
import Relaxation.Proofs.Linear.Svd

/-!
# Decompositions of semidefinite and of diagonal matrices

The right factor of a positive semidefinite matrix makes it diagonal, whatever the left one is: both
the matrix and what the right factor makes of the singular values are positive square roots of the
same square (`Svd.diagonalizes_of_decompose`). A matrix that is diagonal already is never given up
(`Svd.exists_decompose_eq_ok`).
-/

namespace Relaxation

open Matrix

variable {m n : ℕ}

/-! ## Semidefinite matrices -/

section

open scoped MatrixOrder Matrix.Norms.L2Operator

theorem eq_of_mul_self_eq {a b : Matrix (Fin n) (Fin n) ℝ} (ha : a.PosSemidef)
    (hb : b.PosSemidef) (h : a * a = b * b) : a = b :=
  (CFC.sqrt_unique h ha.nonneg).symm.trans (CFC.sqrt_unique rfl hb.nonneg)

end

theorem Factorization.eq_of_posSemidef {a u v : Matrix (Fin n) (Fin n) ℝ} {w : Fin n → ℝ}
    (h : Factorization a u (Matrix.diagonal w) v) (ha : a.PosSemidef) (hw : ∀ i, 0 ≤ w i) :
    v * Matrix.diagonal w * vᵀ = a := by
  have hspectral : (v * Matrix.diagonal w * vᵀ).PosSemidef := by
    have hdiagonal : (Matrix.diagonal w).PosSemidef := posSemidef_diagonal_iff.mpr hw
    rw [← conjTranspose_eq_transpose_of_trivial]
    exact hdiagonal.mul_mul_conjTranspose_same v
  have hsymm : aᵀ = a := by
    rw [← conjTranspose_eq_transpose_of_trivial]
    exact ha.isHermitian.eq
  refine eq_of_mul_self_eq hspectral ha ?_
  calc v * Matrix.diagonal w * vᵀ * (v * Matrix.diagonal w * vᵀ)
      = v * Matrix.diagonal w * (vᵀ * v) * Matrix.diagonal w * vᵀ := by
        simp only [Matrix.mul_assoc]
    _ = v * Matrix.diagonal w * (uᵀ * u) * Matrix.diagonal w * vᵀ := by
        rw [h.left_orthonormal, h.right_orthonormal]
    _ = aᵀ * a := by
        rw [← h.product]
        simp only [transpose_mul, transpose_transpose, diagonal_transpose, Matrix.mul_assoc]
    _ = a * a := by rw [hsymm]

/-- The columns of the right factor are eigenvectors to the singular values. -/
theorem Svd.diagonalizes_of_decompose {a : DenseMatrix n n ℝ} {d : Svd n n ℝ}
    (hd : decompose a = .ok d) (ha : a.toMatrix.PosSemidef) :
    d.v.toMatrix * Matrix.diagonal (fun i => d.w.get i) * d.v.toMatrixᵀ = a.toMatrix ∧
      d.v.toMatrixᵀ * d.v.toMatrix = 1 := by
  obtain ⟨z, hfactors, hsettled, rfl⟩ := exists_factors_of_decompose hd
  have hw : ∀ i, 0 ≤ z.w.get i := fun i => hsettled.nonneg i (Nat.zero_le _)
  have hdiagonal : Factorization a.toMatrix z.u.toMatrix
      (Matrix.diagonal fun i => z.w.get i) z.v.toMatrix := bidiagonal_of_settled hsettled ▸ hfactors
  exact ⟨hdiagonal.eq_of_posSemidef ha hw, hdiagonal.right_orthonormal⟩

/-! ## Diagonal matrices -/

section

variable {p q : ℕ} {t : Fin p}

/-- What vanishes from `t` on is reflected to nothing. -/
theorem Householder.eq_zero {x u : Fin p → ℝ} {d : ℝ} (h : Householder t x u d)
    (hx : ∀ k, t ≤ k → x k = 0) : d = 0 := by
  have hsum : ∑ l, u l * x l = 0 := by
    refine Finset.sum_eq_zero fun l _ => ?_
    rcases lt_or_ge l t with hl | hl
    · rw [h.support l hl, zero_mul]
    · rw [hx l hl, mul_zero]
  have htop := h.image t le_rfl
  rwa [hx t le_rfl, hsum, mul_zero, add_zero, if_pos rfl, eq_comm] at htop

/-- What vanishes after `t` is reflected along the axis, if at all. -/
theorem Householder.eq_zero_or {x u : Fin p → ℝ} {d : ℝ} (h : Householder t x u d)
    (hx : ∀ k, t < k → x k = 0) : d = 0 ∨ ∀ k, t < k → u k = 0 := by
  refine or_iff_not_imp_left.mpr fun hd k hk => ?_
  have hsum : ∑ l, u l * x l = u t * x t := by
    refine Finset.sum_eq_single t (fun l _ hl => ?_) fun hmem => absurd (Finset.mem_univ t) hmem
    rcases lt_or_gt_of_ne hl with hl | hl
    · rw [h.support l hl, zero_mul]
    · rw [hx l hl, mul_zero]
  have htop : x t ≠ 0 := fun hzero =>
    hd (h.eq_zero fun k hk => hk.lt_or_eq.elim (hx k) fun heq => heq ▸ hzero)
  have himage := h.image k hk.le
  rw [hx k hk, hsum, if_neg hk.ne', zero_add] at himage
  have hne : (u t * d)⁻¹ ≠ 0 := inv_ne_zero (mul_ne_zero (h.ne_zero hd) hd)
  have hproduct := (mul_eq_zero.mp himage).resolve_right (mul_ne_zero (h.ne_zero hd) htop)
  exact (mul_eq_zero.mp hproduct).resolve_left hne

/-- A reflection along the axis keeps what is off the diagonal. -/
theorem Reflects.cleared {c : Fin q} {a a' : Matrix (Fin p) (Fin q) ℝ} {d : ℝ}
    (h : Reflects t c a a' d) (htc : t.val = c.val)
    (ha : ∀ k j, t ≤ k → c ≤ j → k.val ≠ j.val → a k j = 0) {k : Fin p} {j : Fin q} (hk : t ≤ k)
    (hj : c < j) (hkj : k.val ≠ j.val) : a' k j = 0 := by
  rw [h.image k j hk hj, reflector_mul_apply, ha k j hk hj.le hkj, zero_add]
  have hcolumn : ∀ l, t < l → a l c = 0 := fun l hl =>
    ha l c hl.le le_rfl (htc ▸ Nat.ne_of_gt hl)
  rcases h.householder.eq_zero_or hcolumn with rfl | haxis
  · simp
  rcases hk.lt_or_eq with hk | rfl
  · rw [haxis k hk, mul_zero, zero_mul]
  · refine mul_eq_zero_of_right _ (Finset.sum_eq_zero fun l _ => ?_)
    rcases lt_trichotomy l t with hl | rfl | hl
    · rw [h.householder.support l hl, zero_mul]
    · rw [ha l j le_rfl hj.le hkj, mul_zero]
    · rw [haxis l hl, zero_mul]

end

namespace Reduction

/-- From row and column `i` on nothing stands off the diagonal. -/
def Cleared (i : ℕ) (a : DenseMatrix m n ℝ) : Prop :=
  ∀ (k : Fin m) (j : Fin n), i ≤ k.val → i ≤ j.val → k.val ≠ j.val → a.toMatrix k j = 0

/-- A row that holds nothing right of the diagonal needs no reflection. -/
theorem reflectRow_of_cleared (h : n ≤ m) {a : DenseMatrix m n ℝ} {i l : Fin n}
    (ha : ∀ k : Fin n, l ≤ k → a.toMatrix (i.castLE h) k = 0) :
    (reflectRow h a i l).2 = 0 ∧ ∀ (k : Fin m) (j : Fin n), i < k.val → l ≤ j →
      (reflectRow h a i l).1.toMatrix k j = a.toMatrix k j := by
  have hreflects := reflects_reflectRow h a i l
  have hzero := hreflects.householder.eq_zero ha
  refine ⟨hzero, fun k j hk hj => ?_⟩
  have himage := hreflects.image j k hj hk
  rw [hzero, mul_zero, reflector_zero, Matrix.one_mul] at himage
  exact himage

/-- The invariant of the reduction of a diagonal matrix. -/
def IsDiagonal (i : ℕ) (r : Reduction m n ℝ) : Prop :=
  Cleared i r.matrix ∧ ∀ j, r.superdiagonal.get j = 0

theorem IsDiagonal.step (h : n ≤ m) {r : Reduction m n ℝ} {i : Fin n} (hr : r.IsDiagonal i) :
    (Reduction.step h r i).IsDiagonal (i + 1) := by
  obtain ⟨hcleared, hsuper⟩ := hr
  have hcolumn : ∀ k j, i.castLE h ≤ k → i < j → k.val ≠ j.val →
      (reflectColumn h r.matrix i).1.toMatrix k j = 0 := fun k j =>
    (reflects_reflectColumn h r.matrix i).cleared rfl hcleared
  by_cases hl : i.val + 1 < n
  · obtain ⟨_, hstep⟩ := step_eq_of_lt h r hl
    obtain ⟨hzero, hrest⟩ := reflectRow_of_cleared h (i := i) (l := ⟨i.val + 1, hl⟩) fun k hk =>
      hcolumn (i.castLE h) k le_rfl hk (Nat.ne_of_lt hk)
    rw [hstep]
    refine ⟨fun k j hk hj hkj => ?_, fun j => ?_⟩
    · rw [hrest k j hk hj]
      exact hcolumn k j (Nat.le_of_succ_le hk) hj hkj
    · rw [hzero, get_set, hsuper, ite_self]
  · obtain ⟨_, hstep⟩ := step_eq_of_not_lt h r hl
    rw [hstep]
    exact ⟨fun k j hk hj => hcolumn k j (Nat.le_of_succ_le hk) hj, hsuper⟩

theorem superdiagonal_ofMatrix (h : n ≤ m) {a : DenseMatrix m n ℝ} (ha : Cleared 0 a) :
    ∀ j, (ofMatrix h a).superdiagonal.get j = 0 := by
  have hdiagonal := foldl_fin_induction (motive := fun i r => r.IsDiagonal i.val)
    (f := step h) (x := ⟨a, Vector.replicate n 0, Vector.replicate n 0, 0⟩)
    ⟨ha, fun j => by simp [Vector.get]⟩ fun i r => IsDiagonal.step h
  exact hdiagonal.2

end Reduction

namespace Diagonalization

variable {size : ℝ} {d : Diagonalization m n ℝ}

theorem blockStart_of_superdiagonal (hd : ∀ j, d.e.get j = 0) {l : ℕ} (hl : l < n) :
    blockStart size d l hl = .split ⟨l, hl⟩ := by
  cases l with
  | zero => rfl
  | succ l =>
    have hzero : d.e[l + 1] = 0 := hd ⟨l + 1, hl⟩
    rw [blockStart, hzero, if_pos (Scalar.negligible_real_iff.mpr rfl)]

theorem settle_of_superdiagonal (hd : ∀ j, d.e.get j = 0) (k : Fin n) (fuel : ℕ) :
    settle size k (fuel + 1) d = some (makeNonNegative k d) := by
  rw [settle, deflate, blockStart_of_superdiagonal hd]
  exact if_pos rfl

theorem e_makeNonNegative (k : Fin n) (d : Diagonalization m n ℝ) :
    (makeNonNegative k d).e = d.e := by
  unfold makeNonNegative
  split <;> rfl

/-- A diagonalization without superdiagonal needs no sweep. -/
theorem exists_run_eq_ok (fuel : ℕ) (size : ℝ) (hd : ∀ j, d.e.get j = 0) :
    ∃ z, run (fuel + 1) size d = .ok z := by
  unfold run
  generalize (List.finRange n).reverse = rows
  induction rows generalizing d with
  | nil => exact ⟨d, rfl⟩
  | cons k rows ih =>
    rw [List.foldlM_cons, settleRow, settle_of_superdiagonal hd]
    exact ih fun j => by rw [e_makeNonNegative, hd]

end Diagonalization

theorem Svd.exists_decompose_eq_ok (h : n ≤ m) (hn : n ≠ 0) {a : DenseMatrix m n ℝ}
    (ha : Reduction.Cleared 0 a) : ∃ d, decompose a = .ok d := by
  obtain ⟨z, hz⟩ := Diagonalization.exists_run_eq_ok 29 (Reduction.ofMatrix h a).size
    (d := Diagonalization.ofReduction h (Reduction.ofMatrix h a))
    (Reduction.superdiagonal_ofMatrix h ha)
  refine ⟨z.toSvd, ?_⟩
  unfold decompose
  rw [dif_pos ⟨h, hn⟩]
  dsimp only
  rw [maxSweeps, hz]
  rfl

end Relaxation
