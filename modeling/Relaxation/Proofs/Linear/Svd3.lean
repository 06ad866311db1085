import Mathlib.Analysis.SpecialFunctions.Trigonometric.Inverse
import Relaxation.Proofs.Linear.Jacobi
import Relaxation.Proofs.Linear.Rotation

/-!
# Decompositions of order three

Whatever the quality of the Jacobi angles, the factors `u` and `v` of a decomposition are rotations
and the matrix is `u r vᵀ`, where `r` is the second factor of the sorted columns. Unless a pivot is
so short that it counts as zero without being zero, `r` is upper triangular, and its diagonal is
ordered and multiplies to the determinant.
-/

namespace Relaxation.Svd3

open Matrix

/-! ## Sorting the columns -/

/-- The squared lengths of the columns. -/
noncomputable def columnLengths (m : Mat3 ℝ) : List ℝ := [m.c1, m.c2, m.c3].map Vec3.normSq

/-- The pair of `a v` and `v` up to the order of the columns, where `v` is a rotation and the
columns of `a v` have the lengths `l`. -/
structure Exchanged (a : Mat3 ℝ) (l : List ℝ) (bv : Mat3 ℝ × Mat3 ℝ) : Prop where
  product : bv.1.toMatrix = a.toMatrix * bv.2.toMatrix
  rotation : bv.2.IsRotation
  perm : (columnLengths bv.1).Perm l

/-- An exchange of two columns is a rotation from the right. -/
structure IsExchange (exchange : Mat3 ℝ → Mat3 ℝ) (p : Mat3 ℝ) : Prop where
  eq_mul : ∀ m, exchange m = m * p
  rotation : p.IsRotation
  perm : ∀ m, (columnLengths (exchange m)).Perm (columnLengths m)

theorem isExchange_12 :
    IsExchange (fun m => ⟨m.c2, -m.c1, m.c3⟩) ⟨⟨0, 1, 0⟩, ⟨-1, 0, 0⟩, ⟨0, 0, 1⟩⟩ where
  eq_mul m := by ext <;> simp
  rotation := by
    simp [Mat3.isRotation_iff, Mat3.isOrthogonal_iff_columns, Vec3.dot, Mat3.det]
  perm m := by
    simp only [columnLengths, List.map_cons, List.map_nil, Vec3.normSq_neg]
    exact .swap ..

theorem isExchange_13 :
    IsExchange (fun m => ⟨m.c3, m.c2, -m.c1⟩) ⟨⟨0, 0, 1⟩, ⟨0, 1, 0⟩, ⟨-1, 0, 0⟩⟩ where
  eq_mul m := by ext <;> simp
  rotation := by
    simp [Mat3.isRotation_iff, Mat3.isOrthogonal_iff_columns, Vec3.dot, Mat3.det]
  perm m := by
    simp only [columnLengths, List.map_cons, List.map_nil, Vec3.normSq_neg]
    exact List.reverse_perm [_, _, _]

theorem isExchange_23 :
    IsExchange (fun m => ⟨m.c1, m.c3, -m.c2⟩) ⟨⟨1, 0, 0⟩, ⟨0, 0, 1⟩, ⟨0, -1, 0⟩⟩ where
  eq_mul m := by ext <;> simp
  rotation := by
    simp [Mat3.isRotation_iff, Mat3.isOrthogonal_iff_columns, Vec3.dot, Mat3.det]
  perm m := by
    simp only [columnLengths, List.map_cons, List.map_nil, Vec3.normSq_neg]
    exact .cons _ (.swap ..)

theorem orderColumns_eq_or (first second : Mat3 ℝ → Vec3 ℝ) (exchange : Mat3 ℝ → Mat3 ℝ)
    (bv : Mat3 ℝ × Mat3 ℝ) :
    ((first bv.1).normSq < (second bv.1).normSq ∧
      orderColumns first second exchange bv = (exchange bv.1, exchange bv.2)) ∨
    ((second bv.1).normSq ≤ (first bv.1).normSq ∧
      orderColumns first second exchange bv = bv) := by
  unfold orderColumns
  split
  case isTrue h => exact .inl ⟨h, rfl⟩
  case isFalse h => exact .inr ⟨not_lt.mp h, rfl⟩

theorem Exchanged.orderColumns {a : Mat3 ℝ} {l : List ℝ} {bv : Mat3 ℝ × Mat3 ℝ}
    {first second : Mat3 ℝ → Vec3 ℝ} {exchange : Mat3 ℝ → Mat3 ℝ} {p : Mat3 ℝ}
    (h : Exchanged a l bv) (hexchange : IsExchange exchange p) :
    Exchanged a l (orderColumns first second exchange bv) := by
  rcases orderColumns_eq_or first second exchange bv with ⟨_, heq⟩ | ⟨_, heq⟩
  · rw [heq, hexchange.eq_mul bv.2]
    refine ⟨?_, h.rotation.mul hexchange.rotation, (hexchange.perm bv.1).trans h.perm⟩
    dsimp only
    rw [hexchange.eq_mul, Mat3.toMatrix_mul, Mat3.toMatrix_mul, h.product, Matrix.mul_assoc]
  · rw [heq]
    exact h

theorem exchanged_sortColumns (a : Mat3 ℝ) {v : Mat3 ℝ} (hv : v.IsRotation) :
    Exchanged a (columnLengths (a * v)) (sortColumns (a * v) v) := by
  have hstart : Exchanged a (columnLengths (a * v)) (a * v, v) :=
    ⟨Mat3.toMatrix_mul a v, hv, .refl _⟩
  exact ((hstart.orderColumns isExchange_12).orderColumns isExchange_13).orderColumns isExchange_23

/-- The columns come in descending order of length. The first two steps bring the longest one to
the front, where the last step leaves it. -/
theorem sorted_sortColumns (b v : Mat3 ℝ) :
    let m := (sortColumns b v).1
    m.c2.normSq ≤ m.c1.normSq ∧ m.c3.normSq ≤ m.c2.normSq := by
  unfold sortColumns
  extract_lets bv₁ bv₂ m
  have h₁ : bv₁.1.c2.normSq ≤ bv₁.1.c1.normSq := by
    rcases orderColumns_eq_or Mat3.c1 Mat3.c2 (fun m => ⟨m.c2, -m.c1, m.c3⟩) (b, v)
      with ⟨hlt, heq⟩ | ⟨hle, heq⟩
    · simp only [bv₁, heq, Vec3.normSq_neg]
      exact hlt.le
    · simp only [bv₁, heq]
      exact hle
  have h₂ : bv₂.1.c2.normSq ≤ bv₂.1.c1.normSq ∧ bv₂.1.c3.normSq ≤ bv₂.1.c1.normSq := by
    rcases orderColumns_eq_or Mat3.c1 Mat3.c3 (fun m => ⟨m.c3, m.c2, -m.c1⟩) bv₁
      with ⟨hlt, heq⟩ | ⟨hle, heq⟩
    · simp only [bv₂, heq, Vec3.normSq_neg]
      exact ⟨h₁.trans hlt.le, hlt.le⟩
    · simp only [bv₂, heq]
      exact ⟨h₁, hle⟩
  rcases orderColumns_eq_or Mat3.c2 Mat3.c3 (fun m => ⟨m.c1, m.c3, -m.c2⟩) bv₂
    with ⟨hlt, heq⟩ | ⟨hle, heq⟩
  · simp only [m, heq, Vec3.normSq_neg]
    exact ⟨h₂.2, hlt.le⟩
  · simp only [m, heq]
    exact ⟨h₂.1, hle⟩

/-! ## Givens rotations -/

theorem pivotTolerance_pos : 0 < (pivotTolerance : ℝ) := by
  rw [pivotTolerance, Scalar.ofScientific_real]
  norm_num

/-- The length of the pair that a rotation turns onto its first axis. -/
noncomputable def pivotLength (a1 a2 : ℝ) : ℝ := √(a1 * a1 + a2 * a2)

theorem pivotLength_mul_self (a1 a2 : ℝ) :
    pivotLength a1 a2 * pivotLength a1 a2 = a1 * a1 + a2 * a2 :=
  Real.mul_self_sqrt (add_nonneg (mul_self_nonneg a1) (mul_self_nonneg a2))

theorem pivotLength_nonneg (a1 a2 : ℝ) : 0 ≤ pivotLength a1 a2 := Real.sqrt_nonneg _

/-- Cosine and sine of half the angle, up to a common factor. -/
noncomputable def halfGivens (a1 a2 : ℝ) : ℝ × ℝ :=
  let rho := pivotLength a1 a2
  let sh := if pivotTolerance < rho then a2 else 0
  let ch := |a1| + max rho pivotTolerance
  if a1 < 0 then (sh, ch) else (ch, sh)

theorem halfGivens_pos {a1 a2 ch sh : ℝ} (h : halfGivens a1 a2 = (ch, sh)) :
    0 < ch * ch + sh * sh := by
  have hlong : 0 < |a1| + max (pivotLength a1 a2) pivotTolerance :=
    add_pos_of_nonneg_of_pos (abs_nonneg a1) (lt_max_of_lt_right pivotTolerance_pos)
  unfold halfGivens at h
  dsimp only at h
  split at h
  · obtain ⟨rfl, rfl⟩ := Prod.mk.inj h
    exact add_pos_of_nonneg_of_pos (mul_self_nonneg _) (mul_pos hlong hlong)
  · obtain ⟨rfl, rfl⟩ := Prod.mk.inj h
    exact add_pos_of_pos_of_nonneg (mul_pos hlong hlong) (mul_self_nonneg _)

/-- The double-angle formulas for a half-angle that is not normalized yet. -/
theorem double_angle {ch sh : ℝ} (h : 0 < ch * ch + sh * sh) :
    let w := Scalar.recip (Scalar.sqrt (ch * ch + sh * sh))
    1 - 2.0 * (sh * w) * (sh * w) = (ch * ch - sh * sh) / (ch * ch + sh * sh) ∧
      2.0 * (ch * w) * (sh * w) = 2 * ch * sh / (ch * ch + sh * sh) := by
  intro w
  have hw : w * w * (ch * ch + sh * sh) = 1 := by
    have hroot := Real.mul_self_sqrt h.le
    have hne : √(ch * ch + sh * sh) ≠ 0 := (Real.sqrt_pos.mpr h).ne'
    simp only [w, Scalar.recip_real, Scalar.sqrt_real]
    rw [← mul_inv, hroot, inv_mul_cancel₀ h.ne']
  have htwo : (2.0 : ℝ) = 2 := by
    rw [Scalar.ofScientific_real]
    norm_num
  rw [htwo, eq_div_iff h.ne', eq_div_iff h.ne']
  constructor
  · linear_combination (-2 * sh * sh) * hw
  · linear_combination (2 * ch * sh) * hw

theorem givens_eq {a1 a2 ch sh : ℝ} (h : halfGivens a1 a2 = (ch, sh)) :
    givens a1 a2 =
      ((ch * ch - sh * sh) / (ch * ch + sh * sh), 2 * ch * sh / (ch * ch + sh * sh)) := by
  obtain ⟨hcos, hsin⟩ := double_angle (halfGivens_pos h)
  unfold halfGivens at h
  unfold givens
  simp only [Scalar.max_real] at h ⊢
  split at h
  case isTrue hneg =>
    obtain ⟨rfl, rfl⟩ := Prod.mk.inj h
    rw [if_pos hneg]
    exact Prod.ext hcos hsin
  case isFalse hneg =>
    obtain ⟨rfl, rfl⟩ := Prod.mk.inj h
    rw [if_neg hneg]
    exact Prod.ext hcos hsin

theorem givens_unit (a1 a2 : ℝ) :
    (givens a1 a2).1 * (givens a1 a2).1 + (givens a1 a2).2 * (givens a1 a2).2 = 1 := by
  rcases h : halfGivens a1 a2 with ⟨ch, sh⟩
  have hne := (halfGivens_pos h).ne'
  rw [givens_eq h, div_mul_div_comm, div_mul_div_comm, ← add_div,
    div_eq_one_iff_eq (mul_ne_zero hne hne)]
  ring

/-- A pivot that does not count as zero is annihilated. -/
theorem givens_of_lt {a1 a2 : ℝ} (h : pivotTolerance < pivotLength a1 a2) :
    givens a1 a2 = (a1 * (pivotLength a1 a2)⁻¹, a2 * (pivotLength a1 a2)⁻¹) := by
  have hsq := pivotLength_mul_self a1 a2
  have hpos : 0 < pivotLength a1 a2 := pivotTolerance_pos.trans h
  rcases hhalf : halfGivens a1 a2 with ⟨ch, sh⟩
  have hhalfpos := halfGivens_pos hhalf
  rw [givens_eq hhalf]
  unfold halfGivens at hhalf
  dsimp only at hhalf
  rw [if_pos h, max_eq_left h.le] at hhalf
  generalize pivotLength a1 a2 = rho at *
  rw [← div_eq_mul_inv, ← div_eq_mul_inv]
  split at hhalf
  case isTrue hneg =>
    obtain ⟨rfl, rfl⟩ := Prod.mk.inj hhalf
    rw [abs_of_neg hneg] at hhalfpos ⊢
    refine Prod.ext ?_ ?_
    · rw [div_eq_div_iff hhalfpos.ne' hpos.ne']
      linear_combination (a1 - rho) * hsq
    · rw [div_eq_div_iff hhalfpos.ne' hpos.ne']
      linear_combination a2 * hsq
  case isFalse hneg =>
    obtain ⟨rfl, rfl⟩ := Prod.mk.inj hhalf
    rw [abs_of_nonneg (not_lt.mp hneg)] at hhalfpos ⊢
    refine Prod.ext ?_ ?_
    · rw [div_eq_div_iff hhalfpos.ne' hpos.ne']
      linear_combination (a1 + rho) * hsq
    · rw [div_eq_div_iff hhalfpos.ne' hpos.ne']
      linear_combination a2 * hsq

/-- The rotation turns the pair of the pivot and the other entry onto its first axis, unless it
takes a short pair for zero. -/
theorem rotates_givens {a1 a2 : ℝ}
    (h : ¬(0 < pivotLength a1 a2 ∧ pivotLength a1 a2 ≤ pivotTolerance)) :
    Rotates a1 a2 (givens a1 a2).1 (givens a1 a2).2 (pivotLength a1 a2) := by
  by_cases hlong : pivotTolerance < pivotLength a1 a2
  · rw [givens_of_lt hlong]
    exact .of_mul_self (pivotLength_mul_self a1 a2) (pivotTolerance_pos.trans hlong).ne'
  · have hzero : pivotLength a1 a2 = 0 :=
      le_antisymm (not_lt.mp fun hpos => h ⟨hpos, not_lt.mp hlong⟩) (pivotLength_nonneg a1 a2)
    have hsq := pivotLength_mul_self a1 a2
    rw [hzero, mul_zero, eq_comm, mul_self_add_mul_self_eq_zero] at hsq
    obtain ⟨rfl, rfl⟩ := hsq
    rw [hzero]
    exact .zero (givens_unit 0 0)

/-! ## The triangular factor -/

/-- The rotation of the two rows that are not of the axis. -/
def rowTurn (axis : Axis) (c s : ℝ) : Mat3 ℝ :=
  match axis with
  | .z => .ofRows ⟨c, s, 0⟩ ⟨-s, c, 0⟩ ⟨0, 0, 1⟩
  | .y => .ofRows ⟨c, 0, s⟩ ⟨0, 1, 0⟩ ⟨-s, 0, c⟩
  | .x => .ofRows ⟨1, 0, 0⟩ ⟨0, c, s⟩ ⟨0, -s, c⟩

theorem isRotation_rowTurn (axis : Axis) {c s : ℝ} (h : c * c + s * s = 1) :
    (rowTurn axis c s).IsRotation := by
  rw [Mat3.isRotation_iff, Mat3.isOrthogonal_iff_columns]
  cases axis <;> simp only [rowTurn, Mat3.ofRows, Vec3.dot, Mat3.det] <;> grind

/-- The rotation that annihilates the entry `a2` against the pivot `a1`, both in one column. -/
noncomputable def annihilator (axis : Axis) (a1 a2 : ℝ) : Mat3 ℝ :=
  rowTurn axis (givens a1 a2).1 (givens a1 a2).2

theorem isRotation_annihilator (axis : Axis) (a1 a2 : ℝ) : (annihilator axis a1 a2).IsRotation :=
  isRotation_rowTurn axis (givens_unit a1 a2)

section Columns

variable (a1 a2 : ℝ) (v : Vec3 ℝ)

theorem annihilator_z_mul : annihilator .z a1 a2 * v =
    ⟨v.x * (givens a1 a2).1 + v.y * (givens a1 a2).2,
      v.y * (givens a1 a2).1 - v.x * (givens a1 a2).2, v.z⟩ := by
  ext <;> simp [annihilator, rowTurn, Mat3.ofRows] <;> ring

theorem annihilator_y_mul : annihilator .y a1 a2 * v =
    ⟨v.x * (givens a1 a2).1 + v.z * (givens a1 a2).2, v.y,
      v.z * (givens a1 a2).1 - v.x * (givens a1 a2).2⟩ := by
  ext <;> simp [annihilator, rowTurn, Mat3.ofRows] <;> ring

theorem annihilator_x_mul : annihilator .x a1 a2 * v =
    ⟨v.x, v.y * (givens a1 a2).1 + v.z * (givens a1 a2).2,
      v.z * (givens a1 a2).1 - v.y * (givens a1 a2).2⟩ := by
  ext <;> simp [annihilator, rowTurn, Mat3.ofRows] <;> ring

end Columns

/-- The rotation of the first two rows, for the second entry of the first column. -/
noncomputable def firstTurn (b : Mat3 ℝ) : Mat3 ℝ := annihilator .z b.c1.x b.c1.y

/-- The rotation of the first and the last row, for the last entry of the first column. -/
noncomputable def secondTurn (b : Mat3 ℝ) : Mat3 ℝ := annihilator .y b.c1.x b.c1.z

/-- The rotation of the last two rows, for the last entry of the second column. -/
noncomputable def thirdTurn (b : Mat3 ℝ) : Mat3 ℝ := annihilator .x b.c2.y b.c2.z

/-- The matrix once the second entry of its first column is zero. -/
noncomputable def afterFirst (b : Mat3 ℝ) : Mat3 ℝ := firstTurn b * b

/-- The matrix once its first column has one entry left. -/
noncomputable def afterSecond (b : Mat3 ℝ) : Mat3 ℝ := secondTurn (afterFirst b) * afterFirst b

/-- The pivot lengths of the three rotations. -/
noncomputable def pivots (b : Mat3 ℝ) : List ℝ :=
  [pivotLength b.c1.x b.c1.y, pivotLength (afterFirst b).c1.x (afterFirst b).c1.z,
    pivotLength (afterSecond b).c2.y (afterSecond b).c2.z]

theorem qr_eq (b : Mat3 ℝ) :
    qr b = ((firstTurn b).transpose * (secondTurn (afterFirst b)).transpose *
      (thirdTurn (afterSecond b)).transpose, thirdTurn (afterSecond b) * afterSecond b) := rfl

theorem isRotation_qr (b : Mat3 ℝ) : (qr b).1.IsRotation := by
  rw [qr_eq]
  exact ((isRotation_annihilator ..).transpose.mul (isRotation_annihilator ..).transpose).mul
    (isRotation_annihilator ..).transpose

/-- Undoing the rotations in turn gives the matrix back. -/
theorem qr_product (b : Mat3 ℝ) : (qr b).1.toMatrix * (qr b).2.toMatrix = b.toMatrix := by
  have undo : ∀ (axis : Axis) (a1 a2 : ℝ) (m : Matrix (Fin 3) (Fin 3) ℝ),
      (annihilator axis a1 a2).toMatrixᵀ * ((annihilator axis a1 a2).toMatrix * m) = m := by
    intro axis a1 a2 m
    rw [← Matrix.mul_assoc, Mat3.isOrthogonal_iff.mp (isRotation_annihilator ..).orthogonal,
      Matrix.one_mul]
  rw [qr_eq]
  simp only [Mat3.toMatrix_mul, Mat3.toMatrix_transpose, Matrix.mul_assoc, afterSecond, afterFirst,
    firstTurn, secondTurn, thirdTurn, undo]

/-- When no pivot is too short, everything below the diagonal is annihilated, and the last two
pivot lengths are the first two entries on it. -/
theorem qr_triangular {b : Mat3 ℝ}
    (h : ∀ rho ∈ pivots b, ¬(0 < rho ∧ rho ≤ pivotTolerance)) :
    (qr b).2.c1.y = 0 ∧ (qr b).2.c1.z = 0 ∧ (qr b).2.c2.z = 0 ∧
      0 ≤ (qr b).2.c1.x ∧ 0 ≤ (qr b).2.c2.y := by
  simp only [pivots, List.forall_mem_cons, List.not_mem_nil, false_imp_iff, implies_true,
    and_true] at h
  obtain ⟨h₁, h₂, h₃⟩ := h
  have hturn₁ := rotates_givens h₁
  have hturn₂ := rotates_givens h₂
  have hturn₃ := rotates_givens h₃
  have hfirst : (afterFirst b).c1 = ⟨pivotLength b.c1.x b.c1.y, 0, b.c1.z⟩ := by
    rw [afterFirst, firstTurn, Mat3.mul_c1, annihilator_z_mul, hturn₁.length, hturn₁.vanishes]
  have hsecond : (afterSecond b).c1 =
      ⟨pivotLength (afterFirst b).c1.x (afterFirst b).c1.z, 0, 0⟩ := by
    rw [afterSecond, secondTurn, Mat3.mul_c1, annihilator_y_mul, hturn₂.length, hturn₂.vanishes,
      hfirst]
  -- The last rotation finds the first column done and turns zeros into zeros there.
  have hcolumn₁ : (qr b).2.c1 = ⟨pivotLength (afterFirst b).c1.x (afterFirst b).c1.z, 0, 0⟩ := by
    rw [qr_eq, thirdTurn, Mat3.mul_c1, annihilator_x_mul, hsecond]
    simp only [zero_mul, add_zero, sub_zero]
  have hcolumn₂ : (qr b).2.c2 =
      ⟨(afterSecond b).c2.x, pivotLength (afterSecond b).c2.y (afterSecond b).c2.z, 0⟩ := by
    rw [qr_eq, thirdTurn, Mat3.mul_c2, annihilator_x_mul, hturn₃.length, hturn₃.vanishes]
  rw [hcolumn₁, hcolumn₂]
  exact ⟨rfl, rfl, rfl, pivotLength_nonneg .., pivotLength_nonneg ..⟩

/-- The columns keep their lengths. -/
theorem normSq_qr (b : Mat3 ℝ) :
    (qr b).2.c1.normSq = b.c1.normSq ∧ (qr b).2.c2.normSq = b.c2.normSq ∧
      (qr b).2.c3.normSq = b.c3.normSq := by
  have hgram : (qr b).2.toMatrixᵀ * (qr b).2.toMatrix = b.toMatrixᵀ * b.toMatrix := by
    rw [← qr_product b, transpose_mul, Matrix.mul_assoc, ← Matrix.mul_assoc (qr b).1.toMatrixᵀ,
      Mat3.isOrthogonal_iff.mp (isRotation_qr b).orthogonal, Matrix.one_mul]
  rw [Mat3.transpose_mul_self, Mat3.transpose_mul_self] at hgram
  have entry := fun i => congrFun₂ hgram i i
  exact ⟨entry 0, entry 1, entry 2⟩

/-! ## The decomposition -/

/-- The columns of `a v` in their final order. -/
noncomputable def sortedColumns (a : Mat3 ℝ) : Mat3 ℝ :=
  (sortColumns (a * rightRotation a) (rightRotation a)).1

theorem decompose_eq (a : Mat3 ℝ) :
    decompose a = ⟨(qr (sortedColumns a)).1, (qr (sortedColumns a)).2.diag,
      (sortColumns (a * rightRotation a) (rightRotation a)).2⟩ := rfl

theorem exchanged_sortedColumns (a : Mat3 ℝ) :
    Exchanged a (columnLengths (a * rightRotation a)) (sortedColumns a, (decompose a).v) :=
  exchanged_sortColumns a (isRotation_rightRotation a)

theorem isRotation_u (a : Mat3 ℝ) : (decompose a).u.IsRotation := isRotation_qr _

theorem isRotation_v (a : Mat3 ℝ) : (decompose a).v.IsRotation :=
  (exchanged_sortedColumns a).rotation

theorem decompose_product (a : Mat3 ℝ) :
    a.toMatrix = (decompose a).u.toMatrix * (qr (sortedColumns a)).2.toMatrix *
      (decompose a).v.toMatrixᵀ := by
  have hproduct : (sortedColumns a).toMatrix = a.toMatrix * (decompose a).v.toMatrix :=
    (exchanged_sortedColumns a).product
  have hu : (decompose a).u = (qr (sortedColumns a)).1 := rfl
  rw [hu, qr_product, hproduct, Matrix.mul_assoc, (isRotation_v a).orthogonal.mul_transpose,
    Matrix.mul_one]

/-- The first column is the longest one, also of those before sorting. -/
theorem isGreatest_norm_sortedColumns (a : Mat3 ℝ) :
    IsGreatest {l | ∃ c ∈ [(a * rightRotation a).c1, (a * rightRotation a).c2,
      (a * rightRotation a).c3], c.norm = l} (sortedColumns a).c1.norm := by
  have hperm : (columnLengths (sortedColumns a)).Perm (columnLengths (a * rightRotation a)) :=
    (exchanged_sortedColumns a).perm
  obtain ⟨h₁₂, h₂₃⟩ := sorted_sortColumns (a * rightRotation a) (rightRotation a)
  constructor
  · have hmem : (sortedColumns a).c1.normSq ∈ columnLengths (a * rightRotation a) :=
      hperm.subset List.mem_cons_self
    obtain ⟨c, hc, hlength⟩ := List.mem_map.mp hmem
    exact ⟨c, hc, congrArg Real.sqrt hlength⟩
  · rintro _ ⟨c, hc, rfl⟩
    rw [Vec3.norm_le_norm_iff]
    have hmem : c.normSq ∈ columnLengths (sortedColumns a) :=
      hperm.symm.subset (List.mem_map_of_mem hc)
    simp only [columnLengths, List.map_cons, List.map_nil, List.mem_cons, List.not_mem_nil,
      or_false] at hmem
    rcases hmem with h | h | h
    · exact h.le
    · exact h.le.trans h₁₂
    · exact h.le.trans (h₂₃.trans h₁₂)

/-- An upper triangular matrix with the longest column first shows its length in the corner, and
no other entry of the diagonal is larger. -/
theorem diag_ordered {r : Mat3 ℝ} (hr : r.c1.y = 0 ∧ r.c1.z = 0 ∧ r.c2.z = 0) (hx : 0 ≤ r.c1.x)
    (h₁₂ : r.c2.normSq ≤ r.c1.normSq) (h₂₃ : r.c3.normSq ≤ r.c2.normSq) :
    r.c2.y ≤ r.c1.x ∧ |r.c3.z| ≤ r.c1.x ∧ r.c1.norm = r.c1.x ∧
      r.det = r.c1.x * r.c2.y * r.c3.z := by
  obtain ⟨h₂₁, h₃₁, h₃₂⟩ := hr
  have hlength : r.c1.normSq = r.c1.x * r.c1.x := by
    rw [Vec3.normSq, Vec3.dot, h₂₁, h₃₁, mul_zero, add_zero, add_zero]
  have hy_le : r.c2.y * r.c2.y ≤ r.c1.x * r.c1.x :=
    (r.c2.y_mul_self_le_normSq.trans h₁₂).trans_eq hlength
  have hz_le : r.c3.z * r.c3.z ≤ r.c1.x * r.c1.x :=
    (r.c3.z_mul_self_le_normSq.trans (h₂₃.trans h₁₂)).trans_eq hlength
  refine ⟨?_, ?_, ?_, ?_⟩
  · exact (le_abs_self _).trans ((abs_le_iff_mul_self_le.mpr hy_le).trans_eq (abs_of_nonneg hx))
  · exact (abs_le_iff_mul_self_le.mpr hz_le).trans_eq (abs_of_nonneg hx)
  · rw [Vec3.norm, hlength]
    exact Real.sqrt_mul_self hx
  · rw [Mat3.det, h₂₁, h₃₁, h₃₂]
    ring

/-- The determinant of the triangular factor is that of the matrix, as the other factors are
rotations. -/
theorem det_eq (a : Mat3 ℝ) : (qr (sortedColumns a)).2.det = a.det := by
  have hproduct := congrArg Matrix.det (decompose_product a)
  rw [Matrix.det_mul, Matrix.det_mul, Matrix.det_transpose, Mat3.det_toMatrix, Mat3.det_toMatrix,
    Mat3.det_toMatrix, Mat3.det_toMatrix, (isRotation_u a).det_eq_one,
    (isRotation_v a).det_eq_one, one_mul, mul_one] at hproduct
  exact hproduct.symm

/-- Both factors of a decomposition are rotations, around a matrix with the diagonal `s`. When none
of the three pivot lengths is so short that it is taken for zero, that matrix is upper triangular
with a diagonal in descending order, which starts with the length of the longest column and
multiplies to the determinant. -/
theorem decompose_ordered (a : Mat3 ℝ) :
    let d := decompose a
    let r := (qr (sortedColumns a)).2
    (d.u.IsRotation ∧ d.v.IsRotation ∧
      a.toMatrix = d.u.toMatrix * r.toMatrix * d.v.toMatrixᵀ ∧ d.s = r.diag) ∧
    ((∀ rho ∈ pivots (sortedColumns a), ¬(0 < rho ∧ rho ≤ pivotTolerance)) →
      r.toMatrix.IsUpperTriangular ∧ d.s.y ≤ d.s.x ∧ 0 ≤ d.s.y ∧ |d.s.z| ≤ d.s.x ∧
      IsGreatest {l | ∃ c ∈ [(a * rightRotation a).c1, (a * rightRotation a).c2,
        (a * rightRotation a).c3], c.norm = l} d.s.x ∧
      d.s.x * d.s.y * d.s.z = a.det) := by
  intro d r
  have hs : d.s = r.diag := congrArg Svd3.s (decompose_eq a)
  refine ⟨⟨isRotation_u a, isRotation_v a, decompose_product a, hs⟩, fun hpivots => ?_⟩
  rw [hs]
  obtain ⟨h₂₁, h₃₁, h₃₂, hx, hy⟩ := qr_triangular hpivots
  obtain ⟨h₁₂, h₂₃⟩ := sorted_sortColumns (a * rightRotation a) (rightRotation a)
  obtain ⟨hlength₁, hlength₂, hlength₃⟩ := normSq_qr (sortedColumns a)
  have hordered := diag_ordered ⟨h₂₁, h₃₁, h₃₂⟩ hx (by rwa [hlength₁, hlength₂])
    (by rwa [hlength₂, hlength₃])
  obtain ⟨hyx, hz, hnorm, hdet⟩ := hordered
  have hgreatest := isGreatest_norm_sortedColumns a
  rw [Vec3.norm, ← hlength₁, ← Vec3.norm, hnorm] at hgreatest
  exact ⟨(Mat3.isUpperTriangular_iff r).mpr ⟨h₂₁, h₃₁, h₃₂⟩, hyx, hy, hz, hgreatest,
    hdet.symm.trans (det_eq a)⟩

theorem pivotLength_zero {a1 : ℝ} (h : 0 ≤ a1) : pivotLength a1 0 = a1 := by
  rw [pivotLength, mul_zero, add_zero, Real.sqrt_mul_self h]

/-- A positive pivot above zeros needs no rotation. -/
theorem annihilator_of_lt (axis : Axis) {a1 : ℝ} (h : pivotTolerance < a1) :
    annihilator axis a1 0 = 1 := by
  have hpos : 0 < a1 := pivotTolerance_pos.trans h
  have hlength := pivotLength_zero hpos.le
  have hgivens : givens a1 0 = (1, 0) := by
    rw [givens_of_lt (h.trans_eq hlength.symm), hlength, mul_inv_cancel₀ hpos.ne', zero_mul]
  rw [annihilator, hgivens]
  cases axis <;> ext <;> simp [rowTurn, Mat3.ofRows]

section Diagonal

variable {d : Vec3 ℝ} (hx : pivotTolerance < d.x) (hy : pivotTolerance < d.y)

include hx

theorem afterFirst_diagonal : afterFirst (.diagonal d) = .diagonal d := by
  have hturn : firstTurn (.diagonal d) = 1 := annihilator_of_lt .z hx
  rw [afterFirst, hturn, Mat3.one_mul]

theorem afterSecond_diagonal : afterSecond (.diagonal d) = .diagonal d := by
  have hturn : secondTurn (.diagonal d) = 1 := annihilator_of_lt .y hx
  rw [afterSecond, afterFirst_diagonal hx, hturn, Mat3.one_mul]

include hy

theorem pivots_diagonal : pivots (.diagonal d) = [d.x, d.x, d.y] := by
  rw [pivots, afterSecond_diagonal hx, afterFirst_diagonal hx]
  have hlength₁ := pivotLength_zero (pivotTolerance_pos.trans hx).le
  have hlength₂ := pivotLength_zero (pivotTolerance_pos.trans hy).le
  exact congrArg₂ (fun r₁ r₂ => [r₁, r₁, r₂]) hlength₁ hlength₂

/-- A diagonal matrix is its own triangular factor. -/
theorem qr_diagonal : qr (.diagonal d) = (1, .diagonal d) := by
  have hturn₁ : firstTurn (.diagonal d) = 1 := annihilator_of_lt .z hx
  have hturn₂ : secondTurn (.diagonal d) = 1 := annihilator_of_lt .y hx
  have hturn₃ : thirdTurn (.diagonal d) = 1 := annihilator_of_lt .x hy
  rw [qr_eq, afterSecond_diagonal hx, afterFirst_diagonal hx, hturn₁, hturn₂, hturn₃]
  refine Prod.ext ?_ (Mat3.one_mul _)
  rw [Mat3.transpose_one, Mat3.one_mul, Mat3.one_mul]

end Diagonal

theorem sortColumns_diagonal {d : Vec3 ℝ} (hyx : d.y * d.y ≤ d.x * d.x)
    (hzy : d.z * d.z ≤ d.y * d.y) (v : Mat3 ℝ) :
    sortColumns (.diagonal d) v = (.diagonal d, v) := by
  have hzx : d.z * d.z ≤ d.x * d.x := hzy.trans hyx
  simp only [sortColumns, orderColumns, Mat3.diagonal, Vec3.normSq, Vec3.dot, mul_zero, add_zero,
    zero_add, if_neg hyx.not_gt, if_neg hzx.not_gt, if_neg hzy.not_gt]

theorem sortColumns_rightRotation_diagonal {d : Vec3 ℝ} (hyx : d.y * d.y < d.x * d.x)
    (hzy : d.z * d.z < d.y * d.y) :
    let a := Mat3.diagonal d
    sortColumns (a * rightRotation a) (rightRotation a) = (a, 1) := by
  intro a
  have hright : rightRotation a = 1 := rightRotation_diagonal hyx.ne' hzy.ne' (hzy.trans hyx).ne
  rw [hright, Mat3.mul_one]
  exact sortColumns_diagonal hyx.le hzy.le 1

/-- A diagonal matrix with its entries in descending order of magnitude is its own decomposition. -/
theorem decompose_diagonal {d : Vec3 ℝ} (hx : pivotTolerance < d.x) (hy : pivotTolerance < d.y)
    (hyx : d.y * d.y < d.x * d.x) (hzy : d.z * d.z < d.y * d.y) :
    decompose (.diagonal d) = ⟨1, d, 1⟩ := by
  have hsort := sortColumns_rightRotation_diagonal hyx hzy
  dsimp only at hsort
  rw [decompose_eq, sortedColumns, hsort, qr_diagonal hx hy]
  rfl

/-- The reflection in the last axis shows in the sign of the last entry, here beside a change of
scale along each axis. -/
theorem decompose_ordered_reflection :
    let a : Mat3 ℝ := .diagonal ⟨3, 2, -1⟩
    let d := decompose a
    (∀ rho ∈ pivots (sortedColumns a), ¬(0 < rho ∧ rho ≤ pivotTolerance)) ∧
      d.s.y ≤ d.s.x ∧ 0 ≤ d.s.y ∧ |d.s.z| ≤ d.s.x ∧ d.s.x * d.s.y * d.s.z = -6 := by
  intro a d
  have htolerance : (pivotTolerance : ℝ) < 2 := by
    rw [pivotTolerance, Scalar.ofScientific_real]
    norm_num
  have hsorted : sortedColumns a = a := congrArg Prod.fst
    (sortColumns_rightRotation_diagonal (by norm_num) (by norm_num))
  have hpivots : ∀ rho ∈ pivots (sortedColumns a), ¬(0 < rho ∧ rho ≤ pivotTolerance) := by
    rw [hsorted, pivots_diagonal (htolerance.trans (by norm_num)) htolerance]
    intro rho hmem ⟨_, hle⟩
    simp only [List.mem_cons, List.not_mem_nil, or_false, or_self_left] at hmem
    rcases hmem with rfl | rfl <;> linarith
  have hdet : a.det = -6 := by norm_num [a, Mat3.diagonal, Mat3.det]
  obtain ⟨-, hordered⟩ := decompose_ordered a
  obtain ⟨-, hyx, hy, hz, -, hproduct⟩ := hordered hpivots
  exact ⟨hpivots, hyx, hy, hz, hproduct.trans hdet⟩

end Relaxation.Svd3
