import Mathlib.Algebra.BigOperators.Fin
import Relaxation.Linear.Bidiagonal
import Relaxation.Proofs.Linear.Reflector
import Relaxation.Proofs.Lists

/-!
# The reduction to bidiagonal form
-/

namespace Relaxation

open Matrix

variable {m n p q : ℕ}

/-- The upper bidiagonal matrix with the diagonal `w` and, from its second entry on, the
superdiagonal `e`. -/
noncomputable def bidiagonal (w e : Vector ℝ n) : Matrix (Fin n) (Fin n) ℝ :=
  .of fun p q => if p.val = q.val then w.get q else if p.val + 1 = q.val then e.get q else 0

/-! ## Partial products -/

theorem partialProd_congr {f g : Fin n → Matrix (Fin p) (Fin p) ℝ} {i : Fin (n + 1)}
    (h : ∀ j : Fin n, j.castSucc < i → f j = g j) : Fin.partialProd f i = Fin.partialProd g i := by
  induction i using Fin.induction with
  | zero => rw [Fin.partialProd_zero, Fin.partialProd_zero]
  | succ i ih =>
    rw [Fin.partialProd_succ, Fin.partialProd_succ, h i Fin.castSucc_lt_succ,
      ih fun j hj => h j (hj.trans Fin.castSucc_lt_succ)]

/-- A product of orthogonal matrices is orthogonal. -/
theorem partialProd_transpose_mul_self {f : Fin n → Matrix (Fin p) (Fin p) ℝ} {i : Fin (n + 1)}
    (h : ∀ j : Fin n, j.castSucc < i → (f j)ᵀ * f j = 1) :
    (Fin.partialProd f i)ᵀ * Fin.partialProd f i = 1 := by
  induction i using Fin.induction with
  | zero => rw [Fin.partialProd_zero, transpose_one, Matrix.one_mul]
  | succ i ih =>
    have hprev := ih fun j hj => h j (hj.trans Fin.castSucc_lt_succ)
    rw [Fin.partialProd_succ, transpose_mul, Matrix.mul_assoc, ← Matrix.mul_assoc _ _ (f i), hprev,
      Matrix.one_mul, h i Fin.castSucc_lt_succ]

/-! ## One reflection -/

/-- The entries from `t` on, with zeros before. -/
noncomputable def tail (t : Fin n) (x : Fin n → ℝ) : Fin n → ℝ := fun k => if t ≤ k then x k else 0

/-- From row `t` on the columns of `a'` after `c` are those of `a` reflected, along what column `c`
of `a'` holds; the reflection takes column `c` of `a` to the single entry `d`. -/
structure Reflects (t : Fin p) (c : Fin q) (a a' : Matrix (Fin p) (Fin q) ℝ) (d : ℝ) : Prop where
  frame : ∀ k j, k < t ∨ j < c → a' k j = a k j
  householder : Householder t (a · c) (tail t (a' · c)) d
  image : ∀ k j, t ≤ k → c < j →
    a' k j = (reflector (tail t (a' · c)) (a' t c * d) * a) k j

/-- A column of zeros stays, and so does the rest. -/
theorem Reflects.zero {t : Fin p} {c : Fin q} {a : Matrix (Fin p) (Fin q) ℝ}
    (h : ∀ k, t ≤ k → a k c = 0) : Reflects t c a a 0 := by
  have htail : tail t (a · c) = 0 := by
    funext k
    exact ite_eq_right_iff.mpr (h k)
  refine ⟨fun _ _ _ => rfl, ?_, fun k j _ _ => ?_⟩
  · rw [htail]
    exact Householder.zero h
  · rw [htail, reflector_mul_apply]
    simp

/-- The reflection as the reduction computes it, on a column scaled by its sum of magnitudes. -/
theorem Reflects.scaled {t : Fin p} {c : Fin q} {a a' : Matrix (Fin p) (Fin q) ℝ}
    {scale s g : ℝ} {v : Fin p → ℝ} (hscale : scale = ∑ k, if t ≤ k then |a k c| else 0)
    (hne : scale ≠ 0) (hs : s = ∑ k, if t ≤ k then a k c / scale * (a k c / scale) else 0)
    (hg : g = -Scalar.withSignOf (√s) (a t c / scale))
    (hv : ∀ k, v k = if k = t then a t c / scale - g else a k c / scale)
    (hframe : ∀ k j, k < t ∨ j < c → a' k j = a k j)
    (hcolumn : ∀ k, t ≤ k → a' k c = v k * scale)
    (hrest : ∀ k j, t ≤ k → c < j → a' k j =
      a k j + (∑ l, if t ≤ l then v l * a l j else 0) / (a t c / scale * g - s) * v k) :
    Reflects t c a a' (scale * g) := by
  have htail : tail t (a' · c) = fun k =>
      if t ≤ k then (if k = t then a t c / scale - g else a k c / scale) * scale else 0 := by
    funext k
    by_cases hk : t ≤ k
    · simp only [tail, hk, if_true, hcolumn k hk, hv k]
    · simp only [tail, hk, if_false]
  have hhouseholder := householder_scaled hne hs.symm (hscale ▸ hne) hg.symm
  refine ⟨hframe, htail ▸ hhouseholder, fun k j hk hj => ?_⟩
  have hgg : g * g = s := by
    have hnonneg : 0 ≤ s := by
      rw [hs]
      exact Finset.sum_nonneg fun k _ => by split <;> simp [mul_self_nonneg]
    rw [hg, neg_mul_neg, sign_mul_self, Real.mul_self_sqrt hnonneg]
  have hsum : ∑ l, tail t (a' · c) l * a l j = scale * ∑ l, if t ≤ l then v l * a l j else 0 := by
    rw [Finset.mul_sum]
    refine Finset.sum_congr rfl fun l _ => ?_
    by_cases hl : t ≤ l
    · simp only [tail, hl, if_true, hcolumn l hl]
      ring
    · simp only [tail, hl, if_false, zero_mul, mul_zero]
  have htop : a t c / scale * g - s = g * v t := by
    rw [hv t, if_pos rfl, ← hgg]
    ring
  rw [hrest k j hk hj, reflector_mul_apply, hsum, tail, if_pos hk, hcolumn k hk, hcolumn t le_rfl,
    htop]
  congr 1
  field_simp

/-- The reflection of a matrix that holds nothing before column `c` from row `t` on. -/
theorem Reflects.mul_apply {t : Fin p} {c : Fin q} {a a' f : Matrix (Fin p) (Fin q) ℝ} {d : ℝ}
    (h : Reflects t c a a' d) (hf : ∀ k j, t ≤ k → f k j = if j < c then 0 else a k j)
    (k : Fin p) (j : Fin q) :
    (reflector (tail t (a' · c)) (a' t c * d) * f) k j =
      if k < t then f k j else if j < c then 0 else if j = c then (if k = t then d else 0)
      else a' k j := by
  have hsum : ∑ l, tail t (a' · c) l * f l j =
      if j < c then 0 else ∑ l, tail t (a' · c) l * a l j := by
    split
    next hj =>
      refine Finset.sum_eq_zero fun l _ => ?_
      by_cases hl : t ≤ l
      · rw [hf l j hl, if_pos hj, mul_zero]
      · rw [tail, if_neg hl, zero_mul]
    next hj =>
      refine Finset.sum_congr rfl fun l _ => ?_
      by_cases hl : t ≤ l
      · rw [hf l j hl, if_neg hj]
      · rw [tail, if_neg hl, zero_mul, zero_mul]
  have htop : tail t (a' · c) t = a' t c := if_pos le_rfl
  rw [reflector_mul_apply, hsum]
  rcases lt_or_ge k t with hk | hk
  · rw [if_pos hk, h.householder.support k hk, mul_zero, zero_mul, add_zero]
  rw [if_neg hk.not_gt, hf k j hk]
  rcases lt_trichotomy j c with hj | rfl | hj
  · simp only [hj, if_true, mul_zero, add_zero]
  · rw [if_neg (lt_irrefl _), if_neg (lt_irrefl _), if_neg (lt_irrefl _), if_pos rfl, ← htop]
    exact h.householder.image k hk
  · rw [if_neg hj.not_gt, if_neg hj.not_gt, if_neg hj.not_gt, if_neg hj.ne', h.image k j hk hj,
      reflector_mul_apply]

theorem Reflects.mul_self {t : Fin p} {c : Fin q} {a a' : Matrix (Fin p) (Fin q) ℝ} {d : ℝ}
    (h : Reflects t c a a' d) :
    reflector (tail t (a' · c)) (a' t c * d) * reflector (tail t (a' · c)) (a' t c * d) = 1 := by
  have htop : tail t (a' · c) t = a' t c := if_pos le_rfl
  exact reflector_mul_self (htop ▸ h.householder.dot_self)

theorem Reflects.top_ne_zero {t : Fin p} {c : Fin q} {a a' : Matrix (Fin p) (Fin q) ℝ} {d : ℝ}
    (h : Reflects t c a a' d) (hd : d ≠ 0) : a' t c ≠ 0 := by
  have htop : tail t (a' · c) t = a' t c := if_pos le_rfl
  exact htop ▸ h.householder.ne_zero hd

namespace Reduction

/-- The entries below the diagonal hold the reflection when the column is done. -/
theorem reflects_reflectColumn (h : n ≤ m) (a : DenseMatrix m n ℝ) (i : Fin n) :
    Reflects (i.castLE h) i a.toMatrix (reflectColumn h a i).1.toMatrix
      (reflectColumn h a i).2 := by
  unfold reflectColumn
  dsimp only
  split
  next hscale =>
    rw [Scalar.beq_real_iff, DenseMatrix.sumFrom_real] at hscale
    exact .zero (sum_abs_eq_zero_iff.mp hscale)
  next hscale =>
    rw [Scalar.beq_real_iff] at hscale
    simp only [DenseMatrix.toMatrix_ofFn, getElem_ofFn, DenseMatrix.sumFrom_real,
      ← DenseMatrix.toMatrix_apply] at hscale ⊢
    refine .scaled rfl hscale rfl rfl (fun _ => rfl) ?_ ?_ ?_
    · rintro k j (hk | hj)
      · exact if_pos hk
      · simp only [of_apply, hj.ne, hj.not_gt, if_false, ite_self]
    · intro k hk
      simp only [of_apply, hk.not_gt, if_false, if_true]
    · intro k j hk hj
      simp only [of_apply, hk.not_gt, hj.ne', hj, if_false, if_true]
      rfl

/-- The same loop as for a column, on the transpose. -/
theorem reflects_reflectRow (h : n ≤ m) (a : DenseMatrix m n ℝ) (i l : Fin n) :
    Reflects l (i.castLE h) a.toMatrixᵀ (reflectRow h a i l).1.toMatrixᵀ
      (reflectRow h a i l).2 := by
  unfold reflectRow
  dsimp only
  split
  next hscale =>
    rw [Scalar.beq_real_iff, DenseMatrix.sumFrom_real] at hscale
    exact .zero (sum_abs_eq_zero_iff.mp hscale)
  next hscale =>
    rw [Scalar.beq_real_iff] at hscale
    simp only [DenseMatrix.toMatrix_ofFn, getElem_ofFn, DenseMatrix.sumFrom_real,
      ← DenseMatrix.toMatrix_apply] at hscale ⊢
    refine .scaled rfl hscale rfl rfl (fun _ => rfl) ?_ ?_ ?_
    · rintro k j (hk | hj)
      · exact if_pos hk
      · simp only [transpose_apply, of_apply, hj.ne, hj.not_gt, if_false, ite_self]
    · intro k hk
      simp only [transpose_apply, of_apply, hk.not_gt, if_false, if_true]
    · intro k j hk hj
      simp only [transpose_apply, of_apply, hk.not_gt, hj.ne', hj, if_false, if_true]
      have hsum : ∀ v : Fin n → ℝ,
          (∑ k : Fin n, if l.val ≤ k.val then a.toMatrix j k * v k else 0) =
            ∑ k, if l ≤ k then v k * a.toMatrix j k else 0 := fun v =>
        Finset.sum_congr rfl fun k _ => if_congr Iff.rfl (mul_comm _ _) rfl
      rw [hsum]
      exact congrArg (_ + ·) ((mul_div_left_comm _ _ _).trans (mul_comm _ _))

/-! ## One step -/

/-- The matrix that a partly reduced one stands for: it is bidiagonal in the first `i` rows and
columns. -/
noncomputable def reduced (i : ℕ) (r : Reduction m n ℝ) : Matrix (Fin m) (Fin n) ℝ :=
  .of fun p q =>
    if p.val < i then
      (if p.val = q.val then r.diagonal.get q
        else if p.val + 1 = q.val then r.superdiagonal.get q else 0)
    else if q.val < i then 0 else r.matrix.toMatrix p q

/-- The reflection of column `i`, from the vector in its place. -/
noncomputable def left (h : n ≤ m) (r : Reduction m n ℝ) (i : Fin n) : Matrix (Fin m) (Fin m) ℝ :=
  reflector (tail (i.castLE h) (r.matrix.toMatrix · i))
    (r.matrix.toMatrix (i.castLE h) i * r.diagonal.get i)

/-- The reflection of row `i`, from the vector in its place; there is none of the last row. -/
noncomputable def right (h : n ≤ m) (r : Reduction m n ℝ) (i : Fin n) : Matrix (Fin n) (Fin n) ℝ :=
  if hl : i.val + 1 < n then
    reflector (tail ⟨i.val + 1, hl⟩ (r.matrix.toMatrix (i.castLE h)))
      (r.matrix.toMatrix (i.castLE h) ⟨i.val + 1, hl⟩ * r.superdiagonal[i.val + 1])
  else 1

/-- The matrix that column `i` was reflected in, but not row `i` yet. -/
noncomputable def halfReduced (h : n ≤ m) (r : Reduction m n ℝ) (i : Fin n) :
    Matrix (Fin m) (Fin n) ℝ :=
  .of fun p q =>
    if p < i.castLE h then reduced i r p q else if q < i then 0
    else if q = i then (if p = i.castLE h then (reflectColumn h r.matrix i).2 else 0)
    else (reflectColumn h r.matrix i).1.toMatrix p q

theorem step_eq_of_lt (h : n ≤ m) (r : Reduction m n ℝ) {i : Fin n} (hl : i.val + 1 < n) :
    ∃ size, step h r i =
      ⟨(reflectRow h (reflectColumn h r.matrix i).1 i ⟨i.val + 1, hl⟩).1,
        r.diagonal.set i (reflectColumn h r.matrix i).2 i.isLt,
        r.superdiagonal.set (i.val + 1)
          (reflectRow h (reflectColumn h r.matrix i).1 i ⟨i.val + 1, hl⟩).2, size⟩ := by
  unfold step
  exact ⟨_, dif_pos hl⟩

theorem step_eq_of_not_lt (h : n ≤ m) (r : Reduction m n ℝ) {i : Fin n} (hl : ¬i.val + 1 < n) :
    ∃ size, step h r i =
      ⟨(reflectColumn h r.matrix i).1, r.diagonal.set i (reflectColumn h r.matrix i).2 i.isLt,
        r.superdiagonal, size⟩ := by
  unfold step
  exact ⟨_, dif_neg hl⟩

/-- Reflecting a row leaves the columns up to the diagonal alone. -/
theorem reflectRow_apply_of_le (h : n ≤ m) (a : DenseMatrix m n ℝ) {i : Fin n}
    (hl : i.val + 1 < n) (k : Fin m) {j : Fin n} (hj : j ≤ i) :
    (reflectRow h a i ⟨i.val + 1, hl⟩).1.toMatrix k j = a.toMatrix k j :=
  (reflects_reflectRow h a i ⟨i.val + 1, hl⟩).frame j k (.inl (Nat.lt_succ_of_le hj))

theorem step_matrix (h : n ≤ m) (r : Reduction m n ℝ) {i : Fin n} (hl : i.val + 1 < n) :
    (step h r i).matrix =
      (reflectRow h (reflectColumn h r.matrix i).1 i ⟨i.val + 1, hl⟩).1 := by
  obtain ⟨_, hstep⟩ := step_eq_of_lt h r hl
  rw [hstep]

theorem diagonal_step (h : n ≤ m) (r : Reduction m n ℝ) (i : Fin n) :
    (step h r i).diagonal.get i = (reflectColumn h r.matrix i).2 := by
  by_cases hl : i.val + 1 < n
  · obtain ⟨_, hstep⟩ := step_eq_of_lt h r hl
    simp [hstep]
  · obtain ⟨_, hstep⟩ := step_eq_of_not_lt h r hl
    simp [hstep]

theorem superdiagonal_step (h : n ≤ m) (r : Reduction m n ℝ) {i : Fin n} (hl : i.val + 1 < n) :
    (step h r i).superdiagonal[i.val + 1] =
      (reflectRow h (reflectColumn h r.matrix i).1 i ⟨i.val + 1, hl⟩).2 := by
  obtain ⟨_, hstep⟩ := step_eq_of_lt h r hl
  simp [hstep]

/-- Column `i` holds the vector of its reflection. -/
theorem step_apply_column (h : n ≤ m) (r : Reduction m n ℝ) (i : Fin n) (k : Fin m) :
    (step h r i).matrix.toMatrix k i = (reflectColumn h r.matrix i).1.toMatrix k i := by
  by_cases hl : i.val + 1 < n
  · rw [step_matrix h r hl, reflectRow_apply_of_le h _ hl k le_rfl]
  · obtain ⟨_, hstep⟩ := step_eq_of_not_lt h r hl
    rw [hstep]

theorem left_step (h : n ≤ m) (r : Reduction m n ℝ) (i : Fin n) :
    left h (step h r i) i =
      reflector (tail (i.castLE h) ((reflectColumn h r.matrix i).1.toMatrix · i))
        ((reflectColumn h r.matrix i).1.toMatrix (i.castLE h) i *
          (reflectColumn h r.matrix i).2) := by
  rw [left, diagonal_step]
  simp only [step_apply_column]

theorem right_step (h : n ≤ m) (r : Reduction m n ℝ) {i : Fin n} (hl : i.val + 1 < n) :
    right h (step h r i) i =
      reflector
        (tail ⟨i.val + 1, hl⟩
          ((reflectRow h (reflectColumn h r.matrix i).1 i ⟨i.val + 1, hl⟩).1.toMatrixᵀ ·
            (i.castLE h)))
        ((reflectRow h (reflectColumn h r.matrix i).1 i ⟨i.val + 1, hl⟩).1.toMatrixᵀ
            ⟨i.val + 1, hl⟩ (i.castLE h) *
          (reflectRow h (reflectColumn h r.matrix i).1 i ⟨i.val + 1, hl⟩).2) := by
  rw [right, dif_pos hl, superdiagonal_step h r hl, step_matrix h r hl]
  rfl

/-- The left reflection of a step clears its column below the diagonal. -/
theorem left_mul_reduced (h : n ≤ m) (r : Reduction m n ℝ) (i : Fin n) :
    left h (step h r i) i * reduced i r = halfReduced h r i := by
  rw [left_step]
  ext p q
  refine (reflects_reflectColumn h r.matrix i).mul_apply (fun k j hk => ?_) p q
  have hk : ¬k.val < i.val := not_lt.mpr hk
  simp only [reduced, of_apply, hk, if_false]
  rfl

/-- The right reflection clears its row beyond the superdiagonal. -/
theorem halfReduced_mul_right (h : n ≤ m) (r : Reduction m n ℝ) (i : Fin n) :
    halfReduced h r i * right h (step h r i) i = reduced (i + 1) (step h r i) := by
  by_cases hl : i.val + 1 < n
  · obtain ⟨_, hstep⟩ := step_eq_of_lt h r hl
    have hhalf : ∀ (k : Fin n) (j : Fin m), (⟨i.val + 1, hl⟩ : Fin n) ≤ k →
        (halfReduced h r i)ᵀ k j =
          if j < i.castLE h then 0 else (reflectColumn h r.matrix i).1.toMatrixᵀ k j := by
      intro k j hk
      have hk : i.val + 1 ≤ k.val := hk
      simp only [halfReduced, reduced, transpose_apply, of_apply, Fin.lt_def, Fin.ext_iff,
        Fin.val_castLE]
      split_ifs <;> first | rfl | omega
    rw [hstep, right, dif_pos hl, ← transpose_transpose (halfReduced h r i),
      ← reflector_transpose, ← transpose_mul]
    ext p q
    have hreflects := reflects_reflectRow h (reflectColumn h r.matrix i).1 i ⟨i.val + 1, hl⟩
    have hentry := hreflects.mul_apply hhalf q p
    simp only [transpose_apply, Vector.getElem_set_self] at hentry ⊢
    refine hentry.trans ?_
    simp only [halfReduced, reduced, of_apply, Fin.lt_def, Fin.ext_iff, Fin.val_castLE, get_set]
    split_ifs <;> first | rfl | omega
  · obtain ⟨_, hstep⟩ := step_eq_of_not_lt h r hl
    rw [hstep, right, dif_neg hl, Matrix.mul_one]
    ext p q
    have hq : q.val ≤ i.val := by omega
    simp only [halfReduced, reduced, of_apply, Fin.lt_def, Fin.ext_iff, Fin.val_castLE, get_set]
    split_ifs <;> first | rfl | omega

/-- The vectors stored at column and row `i` are those of reflections. -/
structure Stored (h : n ≤ m) (r : Reduction m n ℝ) (i : Fin n) : Prop where
  left_mul_left : left h r i * left h r i = 1
  right_mul_right : right h r i * right h r i = 1
  top_ne_zero : r.diagonal.get i ≠ 0 → r.matrix.toMatrix (i.castLE h) i ≠ 0

/-- A step leaves its reflections where the accumulation looks for them. -/
theorem stored_step (h : n ≤ m) (r : Reduction m n ℝ) (i : Fin n) : Stored h (step h r i) i where
  left_mul_left := by
    rw [left_step]
    exact (reflects_reflectColumn h r.matrix i).mul_self
  right_mul_right := by
    by_cases hl : i.val + 1 < n
    · rw [right_step h r hl]
      exact (reflects_reflectRow h _ i ⟨i.val + 1, hl⟩).mul_self
    · rw [right, dif_neg hl, Matrix.one_mul]
  top_ne_zero hd := by
    rw [diagonal_step] at hd
    rw [step_apply_column]
    exact (reflects_reflectColumn h r.matrix i).top_ne_zero hd

/-- The matrix after a step is that before it between two reflections. -/
theorem reduced_eq (h : n ≤ m) (r : Reduction m n ℝ) (i : Fin n) :
    reduced i r =
      left h (step h r i) i * reduced (i + 1) (step h r i) * right h (step h r i) i := by
  have hstored := stored_step h r i
  rw [← halfReduced_mul_right, ← left_mul_reduced, Matrix.mul_assoc, Matrix.mul_assoc,
    Matrix.mul_assoc, hstored.right_mul_right, Matrix.mul_one, ← Matrix.mul_assoc,
    hstored.left_mul_left, Matrix.one_mul]

/-! ## Later steps leave earlier vectors alone -/

/-- A step leaves the rows and columns before it alone. -/
theorem step_apply_of_lt (h : n ≤ m) (r : Reduction m n ℝ) (i : Fin n) {k : Fin m} {j : Fin n}
    (hkj : k.val < i.val ∨ j < i) : (step h r i).matrix.toMatrix k j = r.matrix.toMatrix k j := by
  have hcolumn := (reflects_reflectColumn h r.matrix i).frame k j hkj
  by_cases hl : i.val + 1 < n
  · obtain ⟨_, hstep⟩ := step_eq_of_lt h r hl
    have hrow : j.val < i.val + 1 ∨ k < i.castLE h :=
      hkj.elim .inr fun hj => .inl (Nat.lt_succ_of_lt hj)
    rw [hstep]
    exact ((reflects_reflectRow h _ i ⟨i.val + 1, hl⟩).frame j k hrow).trans hcolumn
  · obtain ⟨_, hstep⟩ := step_eq_of_not_lt h r hl
    rw [hstep]
    exact hcolumn

theorem diagonal_step_of_lt (h : n ≤ m) (r : Reduction m n ℝ) {i j : Fin n} (hij : j < i) :
    (step h r i).diagonal.get j = r.diagonal.get j := by
  have hne : i.val ≠ j.val := (Fin.lt_def.mp hij).ne'
  by_cases hl : i.val + 1 < n
  · obtain ⟨_, hstep⟩ := step_eq_of_lt h r hl
    simp [hstep, hne]
  · obtain ⟨_, hstep⟩ := step_eq_of_not_lt h r hl
    simp [hstep, hne]

theorem superdiagonal_step_of_ne (h : n ≤ m) (r : Reduction m n ℝ) {i : Fin n} {j : ℕ}
    (hj : j < n) (hij : j ≠ i.val + 1) : (step h r i).superdiagonal[j] = r.superdiagonal[j] := by
  by_cases hl : i.val + 1 < n
  · obtain ⟨_, hstep⟩ := step_eq_of_lt h r hl
    simp [hstep, hij.symm]
  · obtain ⟨_, hstep⟩ := step_eq_of_not_lt h r hl
    rw [hstep]

theorem left_step_of_lt (h : n ≤ m) (r : Reduction m n ℝ) {i j : Fin n} (hji : j < i) :
    left h (step h r i) j = left h r j := by
  have hcolumn : ((step h r i).matrix.toMatrix · j) = (r.matrix.toMatrix · j) :=
    funext fun k => step_apply_of_lt h r i (.inr hji)
  rw [left, left, hcolumn, step_apply_of_lt h r i (.inr hji), diagonal_step_of_lt h r hji]

theorem right_step_of_lt (h : n ≤ m) (r : Reduction m n ℝ) {i j : Fin n} (hji : j < i) :
    right h (step h r i) j = right h r j := by
  have hrow : (step h r i).matrix.toMatrix (j.castLE h) = r.matrix.toMatrix (j.castLE h) :=
    funext fun k => step_apply_of_lt h r i (.inl hji)
  by_cases hl : j.val + 1 < n
  · have hne : j.val + 1 ≠ i.val + 1 := by simpa using (Fin.lt_def.mp hji).ne
    rw [right, right, dif_pos hl, dif_pos hl, hrow, superdiagonal_step_of_ne h r hl hne]
  · rw [right, right, dif_neg hl, dif_neg hl]

/-- Later steps leave the stored reflections alone. -/
theorem Stored.step_of_lt {h : n ≤ m} {r : Reduction m n ℝ} {i j : Fin n} (hj : Stored h r j)
    (hji : j < i) : Stored h (step h r i) j where
  left_mul_left := by rw [left_step_of_lt h r hji, hj.left_mul_left]
  right_mul_right := by rw [right_step_of_lt h r hji, hj.right_mul_right]
  top_ne_zero := by
    rw [step_apply_of_lt h r i (.inr hji), diagonal_step_of_lt h r hji]
    exact hj.top_ne_zero

/-! ## The whole reduction -/

/-- The product of the reflections of the columns before `i`. -/
noncomputable def leftProduct (h : n ≤ m) (r : Reduction m n ℝ) (i : Fin (n + 1)) :
    Matrix (Fin m) (Fin m) ℝ :=
  Fin.partialProd (left h r) i

/-- The product of the reflections of the rows before `i`. -/
noncomputable def rightProduct (h : n ≤ m) (r : Reduction m n ℝ) (i : Fin (n + 1)) :
    Matrix (Fin n) (Fin n) ℝ :=
  Fin.partialProd (right h r) i

theorem left_transpose (h : n ≤ m) (r : Reduction m n ℝ) (i : Fin n) :
    (left h r i)ᵀ = left h r i :=
  reflector_transpose _ _

theorem right_transpose (h : n ≤ m) (r : Reduction m n ℝ) (i : Fin n) :
    (right h r i)ᵀ = right h r i := by
  unfold right
  split
  · exact reflector_transpose _ _
  · exact transpose_one

theorem leftProduct_succ_step (h : n ≤ m) (r : Reduction m n ℝ) (i : Fin n) :
    leftProduct h (step h r i) i.succ =
      leftProduct h r i.castSucc * left h (step h r i) i := by
  rw [leftProduct, leftProduct, Fin.partialProd_succ,
    partialProd_congr fun j hj => left_step_of_lt h r (Fin.castSucc_lt_castSucc_iff.mp hj)]

theorem rightProduct_succ_step (h : n ≤ m) (r : Reduction m n ℝ) (i : Fin n) :
    rightProduct h (step h r i) i.succ =
      rightProduct h r i.castSucc * right h (step h r i) i := by
  rw [rightProduct, rightProduct, Fin.partialProd_succ,
    partialProd_congr fun j hj => right_step_of_lt h r (Fin.castSucc_lt_castSucc_iff.mp hj)]

/-- After the first `i` steps `a` is what is left between the reflections made. -/
structure Reduces (h : n ≤ m) (a : DenseMatrix m n ℝ) (i : Fin (n + 1)) (r : Reduction m n ℝ) :
    Prop where
  stored : ∀ j : Fin n, j.castSucc < i → Stored h r j
  product : leftProduct h r i * reduced i r * (rightProduct h r i)ᵀ = a.toMatrix

/-- The invariant of the reduction. -/
theorem reduces_step (h : n ≤ m) {a : DenseMatrix m n ℝ} {i : Fin n} {r : Reduction m n ℝ}
    (hr : Reduces h a i.castSucc r) : Reduces h a i.succ (step h r i) where
  stored j hj := by
    rcases (Fin.castSucc_lt_succ_iff.mp hj).lt_or_eq with hj | rfl
    · exact (hr.stored j hj).step_of_lt hj
    · exact stored_step h r j
  product := by
    have hreduced := reduced_eq h r i
    rw [leftProduct_succ_step, rightProduct_succ_step, transpose_mul, right_transpose,
      ← hr.product, Fin.val_castSucc, hreduced, Fin.val_succ]
    simp only [Matrix.mul_assoc]

theorem reduces_ofMatrix (h : n ≤ m) (a : DenseMatrix m n ℝ) :
    Reduces h a (Fin.last n) (ofMatrix h a) := by
  refine foldl_fin_induction (motive := Reduces h a) ⟨fun j hj => ?_, ?_⟩ fun i r => reduces_step h
  · exact absurd hj (Fin.not_lt_zero _)
  · rw [leftProduct, rightProduct, Fin.partialProd_zero, Fin.partialProd_zero, Matrix.one_mul,
      transpose_one, Matrix.mul_one]
    rfl

end Reduction
end Relaxation
