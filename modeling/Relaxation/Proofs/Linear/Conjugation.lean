import Mathlib.Data.Real.Basic
import Relaxation.Proofs.Linear.Jacobi

/-!
# Conjugations and the rotation they add up to

A Jacobi rotation conjugates the matrix in the current labelling of the axes, and turns the
quaternion about the same axis in the first labelling. With its axes named back, the matrix is
therefore `rᵀ s r` after any number of rotations, where `s` is the matrix at the start and `r` the
rotation of the normalized quaternion (`Jacobi.rotations_tracked`).
-/

namespace Relaxation

/-! ## Turning about an axis -/

namespace Axis

variable {α : Type} [Scalar α]

/-- The axis of the rotation that follows. -/
def next : Axis → Axis
  | .z => .x
  | .x => .y
  | .y => .z

/-- The map that stretches by `t` along an axis and is `!![a, -b; b, a]` in the plane across it. -/
def spin (axis : Axis) (t a b : α) : Mat3 α :=
  match axis with
  | .z => Mat3.ofRows ⟨a, -b, 0⟩ ⟨b, a, 0⟩ ⟨0, 0, t⟩
  | .x => Mat3.ofRows ⟨t, 0, 0⟩ ⟨0, a, -b⟩ ⟨0, b, a⟩
  | .y => Mat3.ofRows ⟨a, 0, b⟩ ⟨0, t, 0⟩ ⟨-b, 0, a⟩

/-- The cosine of an angle, from cosine and sine of its half, both times the same factor. -/
def turnCos (ch sh : α) : α := (ch * ch - sh * sh) / (ch * ch + sh * sh)

/-- The sine of an angle, from cosine and sine of its half, both times the same factor. -/
def turnSin (ch sh : α) : α := (2.0 * sh * ch) / (ch * ch + sh * sh)

/-- The rotation about an axis, from cosine and sine of half its angle. -/
def rotation (axis : Axis) (ch sh : α) : Mat3 α := axis.spin 1 (turnCos ch sh) (turnSin ch sh)

theorem toMatrix_spin (axis : Axis) {t : ℝ} (ht : t ≠ 0) (a b : ℝ) :
    (axis.spin t a b).toMatrix = t • (axis.spin 1 (a / t) (b / t)).toMatrix := by
  cases axis <;> ext i j <;> fin_cases i <;> fin_cases j <;>
    simp [spin, Mat3.ofRows, Mat3.toMatrix, mul_div_cancel₀, ht]

end Axis

namespace Quaternion

/-- A turned quaternion of any length gives the map that turns about the axis first. -/
theorem toMat3_turn (axis : Axis) (ch sh : ℝ) (q : Quaternion ℝ) :
    (q.turn axis ch sh).toMat3 =
      q.toMat3 * axis.spin (ch * ch + sh * sh) (ch * ch - sh * sh) (2.0 * sh * ch) := by
  cases axis <;> ext <;>
    simp only [turn, toMat3, Axis.spin, Mat3.ofRows, Mat3.mul_c1, Mat3.mul_c2, Mat3.mul_c3,
      Mat3.mul_x, Mat3.mul_y, Mat3.mul_z, Scalar.ofScientific_real] <;>
    ring

theorem toMatrix_normalize (q : Quaternion ℝ) :
    q.normalize.toMat3.toMatrix = q.normSq⁻¹ • q.toMat3.toMatrix := by
  rw [← norm_mul_self]
  ext i j
  fin_cases i <;> fin_cases j <;>
    simp [normalize, toMat3, Mat3.ofRows, Mat3.toMatrix] <;> ring

theorem normalize_turn (axis : Axis) {ch sh : ℝ} (h : 0 < ch * ch + sh * sh) (q : Quaternion ℝ) :
    (q.turn axis ch sh).normalize.toMat3 = q.normalize.toMat3 * axis.rotation ch sh := by
  apply Mat3.toMatrix_injective
  calc (q.turn axis ch sh).normalize.toMat3.toMatrix
      = ((ch * ch + sh * sh) * q.normSq)⁻¹ •
          (q.toMat3.toMatrix * (ch * ch + sh * sh) • (axis.rotation ch sh).toMatrix) := by
        rw [toMatrix_normalize, normSq_turn, toMat3_turn, Mat3.toMatrix_mul,
          axis.toMatrix_spin h.ne']
        rfl
    _ = q.normSq⁻¹ • (q.toMat3.toMatrix * (axis.rotation ch sh).toMatrix) := by
        rw [Matrix.mul_smul, smul_smul, mul_inv_rev, inv_mul_cancel_right₀ h.ne']
    _ = (q.normalize.toMat3 * axis.rotation ch sh).toMatrix := by
        rw [Mat3.toMatrix_mul, toMatrix_normalize, Matrix.smul_mul]

end Quaternion

/-! ## The matrix in the first labelling -/

namespace Symmetric3

variable {α : Type}

/-- The matrix with both triangles. -/
def toMat3 (s : Symmetric3 α) : Mat3 α :=
  ⟨⟨s.s11, s.s21, s.s31⟩, ⟨s.s21, s.s22, s.s32⟩, ⟨s.s31, s.s32, s.s33⟩⟩

/-- Undoes `relabel`, so that the first axis becomes the second again. -/
def relabelBack (r : Symmetric3 α) : Symmetric3 α :=
  ⟨r.s33, r.s31, r.s11, r.s32, r.s21, r.s22⟩

@[simp] theorem relabelBack_relabel (s : Symmetric3 α) : s.relabel.relabelBack = s := rfl

/-- A matrix in the first labelling, given in the one whose third axis is `axis` there. -/
def inFirst (axis : Axis) (s : Symmetric3 α) : Symmetric3 α :=
  match axis with
  | .z => s
  | .x => s.relabelBack
  | .y => s.relabelBack.relabelBack

theorem inFirst_next (axis : Axis) (s : Symmetric3 α) :
    s.inFirst axis.next = (s.inFirst axis).relabelBack := by
  cases axis <;> rfl

theorem inFirst_repeat (s : Symmetric3 α) (k : ℕ) :
    s.inFirst (Nat.repeat Axis.next k .z) = Nat.repeat relabelBack k s := by
  induction k with
  | zero => rfl
  | succ k ih => rw [Nat.repeat, inFirst_next, ih, Nat.repeat]

theorem conjugate_eq [Scalar α] (ch sh : α) (o : Symmetric3 α) :
    let a := Axis.turnCos ch sh
    let b := Axis.turnSin ch sh
    o.conjugate ch sh =
      { s11 := a * (a * o.s11 + b * o.s21) + b * (a * o.s21 + b * o.s22)
        s21 := a * (-b * o.s11 + a * o.s21) + b * (-b * o.s21 + a * o.s22)
        s22 := -b * (-b * o.s11 + a * o.s21) + a * (-b * o.s21 + a * o.s22)
        s31 := a * o.s31 + b * o.s32
        s32 := -b * o.s31 + a * o.s32
        s33 := o.s33 } := rfl

/-- In the first labelling every conjugation is one by the rotation about its axis. -/
theorem inFirst_conjugate (axis : Axis) (ch sh : ℝ) (s : Symmetric3 ℝ) :
    ((s.conjugate ch sh).inFirst axis).toMat3 =
      (axis.rotation ch sh).transpose * (s.inFirst axis).toMat3 * axis.rotation ch sh := by
  rw [conjugate_eq, Axis.rotation]
  generalize Axis.turnCos ch sh = a
  generalize Axis.turnSin ch sh = b
  cases axis <;> ext <;>
    simp only [Axis.spin, inFirst, relabelBack, toMat3, Mat3.transpose, Mat3.ofRows, Mat3.mul_c1,
      Mat3.mul_c2, Mat3.mul_c3, Mat3.mul_x, Mat3.mul_y, Mat3.mul_z] <;>
    ring

theorem inFirst_next_relabel (axis : Axis) (s : Symmetric3 α) :
    s.relabel.inFirst axis.next = s.inFirst axis := by
  cases axis <;> rfl

end Symmetric3

/-! ## Runs of rotations -/

namespace Jacobi

/-- The diagonalization of `s` after a number of rotations about the axes in turn. -/
def rotations {α : Type} [Scalar α] (s : Symmetric3 α) : ℕ → Jacobi α
  | 0 => ⟨s, Quaternion.identity⟩
  | k + 1 => (rotations s k).step (Nat.repeat Axis.next k .z)

theorem rotations_three_mul {α : Type} [Scalar α] (s : Symmetric3 α) (n : ℕ) :
    rotations s (3 * n) = Nat.repeat sweep n ⟨s, Quaternion.identity⟩ := by
  have haxis : ∀ n, Nat.repeat Axis.next (3 * n) .z = .z := fun n => by
    induction n with
    | zero => rfl
    | succ n ih => simp only [Nat.mul_succ, Nat.repeat, ih, Axis.next]
  induction n with
  | zero => rfl
  | succ n ih => simp only [Nat.mul_succ, rotations, Nat.repeat, ih, haxis, Axis.next, sweep]

/-- The quaternion of `j` stands for the rotation that makes `s` the matrix of `j`, where the next
rotation is about `axis`. -/
structure Tracks (s : Symmetric3 ℝ) (axis : Axis) (j : Jacobi ℝ) : Prop where
  normSq_pos : 0 < j.rotation.normSq
  conjugates : (j.matrix.inFirst axis).toMat3 =
    j.rotation.normalize.toMat3.transpose * s.toMat3 * j.rotation.normalize.toMat3

theorem tracks_start (s : Symmetric3 ℝ) : Tracks s .z ⟨s, Quaternion.identity⟩ where
  normSq_pos := by simp [Quaternion.identity, Quaternion.normSq]
  conjugates := by
    have hone : (Quaternion.identity : Quaternion ℝ).normalize.toMat3 = 1 := by
      have hnorm : (⟨0, 0, 0, 1⟩ : Quaternion ℝ).norm = 1 := by simp [Quaternion.norm]
      ext <;> simp [Quaternion.identity, Quaternion.normalize, hnorm, Quaternion.toMat3, Mat3.ofRows]
    rw [hone, Mat3.transpose_one, Mat3.one_mul, Mat3.mul_one]
    rfl

theorem Tracks.step {s : Symmetric3 ℝ} {axis : Axis} {j : Jacobi ℝ} (h : Tracks s axis j) :
    Tracks s axis.next (j.step axis) := by
  refine ⟨normSq_step_pos axis h.normSq_pos, ?_⟩
  rcases hgivens : Symmetric3.approximateGivens j.matrix.s11 j.matrix.s21 j.matrix.s22
    with ⟨ch, sh⟩
  have hturn := Quaternion.normalize_turn axis (Symmetric3.approximateGivens_pos hgivens) j.rotation
  -- Renaming the axes and moving on to the next axis leave the matrix in the first labelling alone.
  simp only [Jacobi.step, hgivens, hturn, Symmetric3.inFirst_next_relabel,
    Symmetric3.inFirst_conjugate, h.conjugates]
  apply Mat3.toMatrix_injective
  simp only [Mat3.toMatrix_mul, Mat3.toMatrix_transpose, Matrix.transpose_mul, Matrix.mul_assoc]

theorem tracks_rotations (s : Symmetric3 ℝ) (k : ℕ) :
    Tracks s (Nat.repeat Axis.next k .z) (rotations s k) := by
  induction k with
  | zero => exact tracks_start s
  | succ k ih => exact ih.step

/-- After any number of rotations about the axes in turn, as a diagonalization makes them, the
quaternion is not zero, and the matrix, with its axes named back as often as they were renamed, is
the one at the start conjugated by the rotation of the quaternion. -/
theorem rotations_tracked (s : Symmetric3 ℝ) :
    (∀ k,
      let j := rotations s k
      let r := j.rotation.normalize.toMat3
      j.rotation ≠ ⟨0, 0, 0, 0⟩ ∧ r.IsRotation ∧
        (Nat.repeat Symmetric3.relabelBack k j.matrix).toMat3 = r.transpose * s.toMat3 * r) ∧
    (∀ n, rotations s (3 * n) = Nat.repeat sweep n ⟨s, Quaternion.identity⟩) ∧
    diagonalize s = rotations s (3 * sweeps) := by
  refine ⟨fun k => ?_, rotations_three_mul s, (rotations_three_mul s sweeps).symm⟩
  obtain ⟨hpos, hconjugates⟩ := tracks_rotations s k
  refine ⟨fun hzero => ?_, Quaternion.isRotation_toMat3_normalize hpos, ?_⟩
  · simp [hzero, Quaternion.normSq] at hpos
  · rw [← Symmetric3.inFirst_repeat]
    exact hconjugates

end Jacobi
end Relaxation
