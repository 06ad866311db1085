import Mathlib.Data.Real.Basic
import Relaxation.Proofs.Linear.Conjugation

/-!
# Jacobi rotations contract

The angle of a Jacobi rotation is only nearly the one that annihilates the pivot, but near enough:
whether it is approximated or the fixed one, less than 61 hundredths of the pivot are left
(`Symmetric3.abs_pivot_conjugate_le`). As a rotation keeps the squares of the other entries off the
diagonal, their sum never grows over a diagonalization (`Jacobi.rotations_contract`).
-/

namespace Relaxation

namespace Axis

/-- A common factor of cosine and sine does not change the angle. -/
theorem turn_mul {w : ℝ} (hw : w ≠ 0) (ch sh : ℝ) :
    turnCos (w * ch) (w * sh) = turnCos ch sh ∧ turnSin (w * ch) (w * sh) = turnSin ch sh := by
  have hww := mul_ne_zero hw hw
  unfold turnCos turnSin
  rw [← mul_div_mul_left (ch * ch - sh * sh) _ hww, ← mul_div_mul_left (2.0 * sh * ch) _ hww,
    Scalar.ofScientific_real]
  constructor <;> congr 1 <;> ring

theorem turnCos_mul_self_add {ch sh : ℝ} (h : 0 < ch * ch + sh * sh) :
    turnCos ch sh * turnCos ch sh + turnSin ch sh * turnSin ch sh = 1 := by
  rw [turnCos, turnSin, div_mul_div_comm, div_mul_div_comm, ← add_div,
    div_eq_one_iff_eq (mul_ne_zero h.ne' h.ne'), Scalar.ofScientific_real]
  ring

end Axis

namespace Symmetric3

variable (s : Symmetric3 ℝ)

/-- The sum of the squares of all entries. -/
noncomputable def squares : ℝ := ∑ i, ∑ j, s.toMat3.toMatrix i j ^ 2

/-- The sum of the squares of the entries off the diagonal. -/
noncomputable def offDiagonal : ℝ :=
  ∑ i, ∑ j ∈ Finset.univ.erase i, s.toMat3.toMatrix i j ^ 2

theorem squares_eq :
    s.squares = s.s11 ^ 2 + s.s22 ^ 2 + s.s33 ^ 2 + 2 * (s.s21 ^ 2 + s.s31 ^ 2 + s.s32 ^ 2) := by
  simp only [squares, Fin.sum_univ_three, toMat3, Mat3.toMatrix, Matrix.of_apply, Matrix.cons_val]
  ring

theorem offDiagonal_eq : s.offDiagonal = 2 * (s.s21 ^ 2 + s.s31 ^ 2 + s.s32 ^ 2) := by
  simp only [offDiagonal, Finset.sum_erase_eq_sub (Finset.mem_univ _), Fin.sum_univ_three, toMat3,
    Mat3.toMatrix, Matrix.of_apply, Matrix.cons_val]
  ring

/-! ## What a rotation keeps -/

variable {s} {ch sh : ℝ}

theorem trace_conjugate (h : 0 < ch * ch + sh * sh) :
    (s.conjugate ch sh).toMat3.trace = s.toMat3.trace := by
  have hunit := Axis.turnCos_mul_self_add h
  simp only [conjugate_eq, toMat3, Mat3.trace]
  linear_combination (s.s11 + s.s22) * hunit

theorem others_conjugate (h : 0 < ch * ch + sh * sh) :
    (s.conjugate ch sh).s31 ^ 2 + (s.conjugate ch sh).s32 ^ 2 = s.s31 ^ 2 + s.s32 ^ 2 := by
  have hunit := Axis.turnCos_mul_self_add h
  simp only [conjugate_eq]
  linear_combination (s.s31 ^ 2 + s.s32 ^ 2) * hunit

theorem squares_conjugate (h : 0 < ch * ch + sh * sh) :
    (s.conjugate ch sh).squares = s.squares := by
  have hunit := Axis.turnCos_mul_self_add h
  have hothers := others_conjugate (s := s) h
  simp only [squares_eq, mul_add, add_assoc]
  simp only [conjugate_eq] at hothers ⊢
  generalize Axis.turnCos ch sh = a at *
  generalize Axis.turnSin ch sh = b at *
  linear_combination 2 * hothers +
    (s.s11 ^ 2 + s.s22 ^ 2 + 2 * s.s21 ^ 2) * (a * a + b * b + 1) * hunit

/-! ## What a rotation leaves of the pivot -/

theorem pivot_conjugate (s : Symmetric3 ℝ) (ch sh : ℝ) :
    let a := Axis.turnCos ch sh
    let b := Axis.turnSin ch sh
    (s.conjugate ch sh).s21 = (a * a - b * b) * s.s21 - a * b * (s.s11 - s.s22) := by
  simp only [conjugate_eq]
  ring

/-- What the approximate angle leaves of the pivot, as a fraction in the squares of cosine and sine
of its half. -/
theorem pivot_approximate (c p : ℝ) :
    let a := Axis.turnCos c p
    let b := Axis.turnSin c p
    (a * a - b * b) * p - a * b * (c / 2) =
      p * (p * p * (p * p - 5 * (c * c)) / (c * c + p * p) ^ 2) := by
  intro a b
  simp only [a, b, Axis.turnCos, Axis.turnSin, Scalar.ofScientific_real]
  field_simp
  ring

/-- The fraction grows with `u`, and where the approximate angle gives way `v` is still `5.8 u`. -/
theorem abs_fraction_le {u v : ℝ} (hu : 0 ≤ u) (hv : 0 < v + u) (h : 29 / 5 * u ≤ v) :
    |u * (u - 5 * v) / (v + u) ^ 2| ≤ 61 / 100 := by
  rw [abs_div, abs_of_pos (pow_pos hv 2), div_le_iff₀ (pow_pos hv 2), abs_le]
  constructor <;> nlinarith [mul_nonneg hu (sub_nonneg.mpr h), mul_self_nonneg (v - 29 / 5 * u)]

theorem le_fourGammaSquared : 29 / 5 ≤ (fourGammaSquared : ℝ) := by
  rw [fourGammaSquared, Scalar.ofScientific_real]
  norm_num

theorem fourGammaSquared_le : (fourGammaSquared : ℝ) ≤ 5829 / 1000 := by
  rw [fourGammaSquared, Scalar.ofScientific_real]
  norm_num

/-- The fixed half-angle is close enough to an eighth of `π` that its fourfold has next to no
cosine. -/
theorem turn_piOverEight :
    let a : ℝ := Axis.turnCos cosPiOverEight sinPiOverEight
    let b : ℝ := Axis.turnSin cosPiOverEight sinPiOverEight
    |a * a - b * b| ≤ 1 / 1000 ∧ |a * b| ≤ 1 / 2 := by
  intro a b
  constructor
  · simp only [a, b, Axis.turnCos, Axis.turnSin, cosPiOverEight, sinPiOverEight,
      Scalar.ofScientific_real]
    norm_num [abs_le]
  · have hunit : a * a + b * b = 1 := Axis.turnCos_mul_self_add
      (add_pos_of_pos_of_nonneg (mul_pos cosPiOverEight_pos cosPiOverEight_pos) (mul_self_nonneg _))
    rw [abs_le]
    constructor <;> linarith [mul_self_nonneg (a - b), mul_self_nonneg (a + b)]

/-- A rotation leaves less than 61 hundredths of the pivot. -/
theorem abs_pivot_conjugate_le {s : Symmetric3 ℝ} {ch sh : ℝ}
    (h : approximateGivens s.s11 s.s21 s.s22 = (ch, sh)) :
    |(s.conjugate ch sh).s21| ≤ 61 / 100 * |s.s21| := by
  rw [pivot_conjugate]
  unfold approximateGivens at h
  have hdouble : 2.0 * (s.s11 - s.s22) / 2 = s.s11 - s.s22 := by
    rw [Scalar.ofScientific_real]
    ring
  rw [← hdouble]
  generalize 2.0 * (s.s11 - s.s22) = c at h ⊢
  generalize s.s21 = p at h ⊢
  dsimp only at h
  split at h
  -- The approximate angle: its half has the tangent `p / c`, whatever the factor `w`.
  case isTrue hlt =>
    obtain ⟨rfl, rfl⟩ := Prod.mk.inj h
    have hpos : 0 < c * c + p * p := lengthSq_pos hlt
    have hw : Scalar.recip (Scalar.sqrt (c * c + p * p)) ≠ 0 := by
      rw [Scalar.recip_real, Scalar.sqrt_real]
      exact (inv_pos.mpr (Real.sqrt_pos.mpr hpos)).ne'
    have hlarge : 29 / 5 * (p * p) ≤ c * c := by
      rw [mul_assoc] at hlt
      exact (mul_le_mul_of_nonneg_right le_fourGammaSquared (mul_self_nonneg p)).trans hlt.le
    obtain ⟨hcos, hsin⟩ := Axis.turn_mul hw c p
    rw [hcos, hsin, pivot_approximate, abs_mul, mul_comm]
    exact mul_le_mul_of_nonneg_right (abs_fraction_le (mul_self_nonneg p) hpos hlarge)
      (abs_nonneg p)
  -- The fixed angle: the pivot all but vanishes, and half of `c / 2` takes its place.
  case isFalse hlt =>
    obtain ⟨rfl, rfl⟩ := Prod.mk.inj h
    obtain ⟨hdiff, hprod⟩ := turn_piOverEight
    have hsmall : |c / 2| ≤ 121 / 100 * |p| := by
      rw [← abs_of_pos (show (0 : ℝ) < 121 / 100 by norm_num), ← abs_mul, ← sq_le_sq]
      nlinarith [mul_le_mul_of_nonneg_right fourGammaSquared_le (mul_self_nonneg p)]
    generalize (Axis.turnCos cosPiOverEight sinPiOverEight : ℝ) = a at *
    generalize (Axis.turnSin cosPiOverEight sinPiOverEight : ℝ) = b at *
    calc |(a * a - b * b) * p - a * b * (c / 2)|
        ≤ |a * a - b * b| * |p| + |a * b| * |c / 2| := by
          rw [← abs_mul, ← abs_mul]
          exact abs_sub _ _
      _ ≤ 1 / 1000 * |p| + 1 / 2 * (121 / 100 * |p|) := by gcongr
      _ ≤ 61 / 100 * |p| := by linarith [abs_nonneg p]

/-! ## Runs of rotations -/

/-- What one rotation makes of `o`, in the same labelling of the axes, where `s21` is the pivot. -/
structure Contracts (o r : Symmetric3 ℝ) : Prop where
  pivot : |r.s21| ≤ 61 / 100 * |o.s21|
  trace : r.toMat3.trace = o.toMat3.trace
  squares : r.squares = o.squares
  others : r.s31 ^ 2 + r.s32 ^ 2 = o.s31 ^ 2 + o.s32 ^ 2

theorem contracts_conjugate {s : Symmetric3 ℝ} {ch sh : ℝ}
    (h : approximateGivens s.s11 s.s21 s.s22 = (ch, sh)) : Contracts s (s.conjugate ch sh) where
  pivot := abs_pivot_conjugate_le h
  trace := trace_conjugate (approximateGivens_pos h)
  squares := squares_conjugate (approximateGivens_pos h)
  others := others_conjugate (approximateGivens_pos h)

theorem Contracts.offDiagonal_le {o r : Symmetric3 ℝ} (h : Contracts o r) :
    r.offDiagonal ≤ o.offDiagonal := by
  have hpivot : r.s21 ^ 2 ≤ o.s21 ^ 2 :=
    sq_le_sq.mpr (h.pivot.trans (by linarith [abs_nonneg o.s21]))
  rw [offDiagonal_eq, offDiagonal_eq]
  linarith [h.others]

theorem offDiagonal_relabelBack (s : Symmetric3 ℝ) :
    s.relabelBack.offDiagonal = s.offDiagonal := by
  simp only [offDiagonal_eq, relabelBack]
  ring

end Symmetric3

namespace Jacobi

theorem contracts_step (axis : Axis) (j : Jacobi ℝ) :
    j.matrix.Contracts (j.step axis).matrix.relabelBack := by
  rcases hgivens : Symmetric3.approximateGivens j.matrix.s11 j.matrix.s21 j.matrix.s22
    with ⟨ch, sh⟩
  simp only [step, hgivens, Symmetric3.relabelBack_relabel]
  exact Symmetric3.contracts_conjugate hgivens

theorem offDiagonal_step_le (axis : Axis) (j : Jacobi ℝ) :
    (j.step axis).matrix.offDiagonal ≤ j.matrix.offDiagonal := by
  rw [← Symmetric3.offDiagonal_relabelBack]
  exact (contracts_step axis j).offDiagonal_le

/-- Every rotation, whichever matrix it is given, leaves less than 61 hundredths of the pivot and
keeps the trace, the squares of all entries and those of the other two entries off the diagonal, so
that the squares off the diagonal never grow, from rotation to rotation and over all sweeps. -/
theorem rotations_contract :
    (∀ (axis : Axis) (j : Jacobi ℝ), j.matrix.Contracts (j.step axis).matrix.relabelBack ∧
      (j.step axis).matrix.offDiagonal ≤ j.matrix.offDiagonal) ∧
    ∀ s : Symmetric3 ℝ, (Antitone fun k => (rotations s k).matrix.offDiagonal) ∧
      (Antitone fun n => (Nat.repeat sweep n ⟨s, Quaternion.identity⟩).matrix.offDiagonal) ∧
      (diagonalize s).matrix.offDiagonal ≤ s.offDiagonal := by
  refine ⟨fun axis j => ⟨contracts_step axis j, offDiagonal_step_le axis j⟩, fun s => ?_⟩
  have hrotations : Antitone fun k => (rotations s k).matrix.offDiagonal :=
    antitone_nat_of_succ_le fun k => offDiagonal_step_le _ (rotations s k)
  have hsweeps : ∀ n, rotations s (3 * n) = Nat.repeat sweep n ⟨s, Quaternion.identity⟩ :=
    rotations_three_mul s
  refine ⟨hrotations, ?_, ?_⟩
  · simp only [← hsweeps]
    exact hrotations.comp_monotone fun _ _ h => Nat.mul_le_mul_left 3 h
  · have hstart : (rotations s 0).matrix = s := rfl
    have htotal := hrotations (Nat.zero_le (3 * sweeps))
    simpa only [hsweeps, hstart, diagonalize] using htotal

end Jacobi
end Relaxation
