import Mathlib.Algebra.Module.Defs
import Mathlib.Tactic.Abel
import Mathlib.Tactic.Linarith
import Mathlib.Tactic.Ring
import Relaxation.Proofs.Scalar.Real

/-!
# Vectors over the reals

Over the exact scalar the vectors in space are a real vector space, with the operations that the
library defines component by component.
-/

namespace Relaxation.Vec3

section Components

variable {α : Type} [Scalar α] (a b : Vec3 α) (t : α)

@[simp] theorem zero_x : (0 : Vec3 α).x = 0 := rfl

@[simp] theorem zero_y : (0 : Vec3 α).y = 0 := rfl

@[simp] theorem zero_z : (0 : Vec3 α).z = 0 := rfl

@[simp] theorem add_x : (a + b).x = a.x + b.x := rfl

@[simp] theorem add_y : (a + b).y = a.y + b.y := rfl

@[simp] theorem add_z : (a + b).z = a.z + b.z := rfl

@[simp] theorem sub_x : (a - b).x = a.x - b.x := rfl

@[simp] theorem sub_y : (a - b).y = a.y - b.y := rfl

@[simp] theorem sub_z : (a - b).z = a.z - b.z := rfl

@[simp] theorem neg_x : (-a).x = -a.x := rfl

@[simp] theorem neg_y : (-a).y = -a.y := rfl

@[simp] theorem neg_z : (-a).z = -a.z := rfl

@[simp] theorem mul_x : (a * t).x = a.x * t := rfl

@[simp] theorem mul_y : (a * t).y = a.y * t := rfl

@[simp] theorem mul_z : (a * t).z = a.z * t := rfl

@[simp] theorem div_x : (a / t).x = a.x / t := rfl

@[simp] theorem div_y : (a / t).y = a.y / t := rfl

@[simp] theorem div_z : (a / t).z = a.z / t := rfl

end Components

/-! ## Products -/

section Products

variable (a b : Vec3 ℝ)

theorem dot_comm : a.dot b = b.dot a := by
  simp only [dot]
  ring

@[simp] theorem dot_zero : a.dot 0 = 0 := by
  simp only [dot, zero_x, zero_y, zero_z, mul_zero, add_zero]

theorem dot_add (a b c : Vec3 ℝ) : a.dot (b + c) = a.dot b + a.dot c := by
  simp only [dot, add_x, add_y, add_z]
  ring

theorem dot_mul (a b : Vec3 ℝ) (t : ℝ) : a.dot (b * t) = a.dot b * t := by
  simp only [dot, mul_x, mul_y, mul_z]
  ring

theorem dot_neg : a.dot (-b) = -a.dot b := by
  simp only [dot, neg_x, neg_y, neg_z]
  ring

theorem normSq_zero : (0 : Vec3 ℝ).normSq = 0 := dot_zero 0

theorem normSq_nonneg : 0 ≤ a.normSq :=
  add_nonneg (add_nonneg (mul_self_nonneg _) (mul_self_nonneg _)) (mul_self_nonneg _)

theorem normSq_pos {a : Vec3 ℝ} (h : a ≠ 0) : 0 < a.normSq := by
  refine lt_of_le_of_ne a.normSq_nonneg fun hzero => h ?_
  have hx := mul_self_nonneg a.x
  have hy := mul_self_nonneg a.y
  have hz := mul_self_nonneg a.z
  simp only [normSq, dot] at hzero
  exact Vec3.ext (mul_self_eq_zero.mp (by linarith)) (mul_self_eq_zero.mp (by linarith))
    (mul_self_eq_zero.mp (by linarith))

theorem eq_zero_of_normSq {a : Vec3 ℝ} (h : a.normSq = 0) : a = 0 := by
  by_contra hne
  exact (normSq_pos hne).ne' h

theorem x_mul_self_le_normSq : a.x * a.x ≤ a.normSq := by
  simp only [normSq, dot]
  linarith [mul_self_nonneg a.y, mul_self_nonneg a.z]

theorem y_mul_self_le_normSq : a.y * a.y ≤ a.normSq := by
  simp only [normSq, dot]
  linarith [mul_self_nonneg a.x, mul_self_nonneg a.z]

theorem z_mul_self_le_normSq : a.z * a.z ≤ a.normSq := by
  simp only [normSq, dot]
  linarith [mul_self_nonneg a.x, mul_self_nonneg a.y]

/-- The Cauchy–Schwarz inequality, from Lagrange's identity. -/
theorem dot_mul_self_le : a.dot b * a.dot b ≤ a.normSq * b.normSq := by
  have hlagrange : a.normSq * b.normSq - a.dot b * a.dot b = (a.cross b).normSq := by
    simp only [normSq, dot, cross]
    ring
  linarith [(a.cross b).normSq_nonneg]

@[simp] theorem normSq_neg : (-a).normSq = a.normSq := by
  simp only [normSq, dot, neg_x, neg_y, neg_z, neg_mul_neg]

theorem norm_mul_self : a.norm * a.norm = a.normSq := Real.mul_self_sqrt a.normSq_nonneg

theorem norm_le_norm_iff : a.norm ≤ b.norm ↔ a.normSq ≤ b.normSq :=
  Real.sqrt_le_sqrt_iff b.normSq_nonneg

theorem norm_pos {a : Vec3 ℝ} (h : a ≠ 0) : 0 < a.norm := Real.sqrt_pos.mpr (normSq_pos h)

theorem norm_nonneg : 0 ≤ a.norm := Real.sqrt_nonneg _

@[simp] theorem norm_neg : (-a).norm = a.norm := by rw [norm, normSq_neg, norm]

theorem dot_le_norm_mul_norm : a.dot b ≤ a.norm * b.norm := by
  have hsq : a.dot b * a.dot b ≤ a.norm * b.norm * (a.norm * b.norm) := by
    rw [mul_mul_mul_comm, norm_mul_self, norm_mul_self]
    exact dot_mul_self_le a b
  calc a.dot b ≤ |a.dot b| := le_abs_self _
    _ ≤ |a.norm * b.norm| := abs_le_iff_mul_self_le.mpr hsq
    _ = a.norm * b.norm := abs_of_nonneg (mul_nonneg a.norm_nonneg b.norm_nonneg)

theorem norm_add_le : (a + b).norm ≤ a.norm + b.norm := by
  have hsplit : (a + b).normSq = a.norm * a.norm + b.norm * b.norm + 2 * a.dot b := by
    rw [norm_mul_self, norm_mul_self]
    simp only [normSq, dot, add_x, add_y, add_z]
    ring
  refine Real.sqrt_le_iff.mpr ⟨add_nonneg a.norm_nonneg b.norm_nonneg, ?_⟩
  rw [hsplit, sq, add_mul_self_eq]
  linarith [dot_le_norm_mul_norm a b]

/-- A length is known by its square. -/
theorem norm_eq_of_normSq {a : Vec3 ℝ} {t : ℝ} (ht : 0 ≤ t) (h : a.normSq = t * t) :
    a.norm = t := by
  rw [norm, h, Scalar.sqrt_real, Real.sqrt_mul_self ht]

theorem norm_mul (t : ℝ) : (a * t).norm = a.norm * |t| := by
  refine norm_eq_of_normSq (mul_nonneg (Real.sqrt_nonneg _) (abs_nonneg t)) ?_
  rw [mul_mul_mul_comm, norm_mul_self, abs_mul_abs_self]
  simp only [normSq, dot, mul_x, mul_y, mul_z]
  ring

theorem cross_swap : b.cross a = -a.cross b := by
  ext <;> simp only [cross, neg_x, neg_y, neg_z] <;> ring

theorem cross_self : a.cross a = 0 := by
  ext <;> simp only [cross, zero_x, zero_y, zero_z] <;> ring

theorem cross_neg : a.cross (-b) = -a.cross b := by
  ext <;> simp only [cross, neg_x, neg_y, neg_z] <;> ring

theorem cross_add (a b c : Vec3 ℝ) : a.cross (b + c) = a.cross b + a.cross c := by
  ext <;> simp only [cross, add_x, add_y, add_z] <;> ring

theorem cross_mul (a b : Vec3 ℝ) (t : ℝ) : a.cross (b * t) = a.cross b * t := by
  ext <;> simp only [cross, mul_x, mul_y, mul_z] <;> ring

theorem cross_cross_self : b.cross (a.cross b) = a * b.normSq - b * a.dot b := by
  ext <;> simp only [cross, normSq, dot, sub_x, sub_y, sub_z, mul_x, mul_y, mul_z] <;> ring

theorem cross_dot (a b c : Vec3 ℝ) : (a.cross b).dot c = a.dot (b.cross c) := by
  simp only [dot, cross]
  ring

theorem normSq_cross : (a.cross b).normSq = a.normSq * b.normSq - a.dot b * a.dot b := by
  simp only [normSq, dot, cross]
  ring

theorem cross_dot_left : (a.cross b).dot a = 0 := by
  simp only [dot, cross]
  ring

theorem cross_dot_right : (a.cross b).dot b = 0 := by
  simp only [dot, cross]
  ring

/-- Perpendicular vectors that do not vanish span a plane. -/
theorem cross_ne_zero {a b : Vec3 ℝ} (ha : a ≠ 0) (hb : b ≠ 0) (h : a.dot b = 0) :
    a.cross b ≠ 0 := by
  intro hzero
  have hcross := normSq_cross a b
  rw [hzero, normSq_zero, h, mul_zero, sub_zero] at hcross
  exact (mul_pos (normSq_pos ha) (normSq_pos hb)).ne hcross

theorem almostZero_neg (tolerance : ℝ) : (-a).almostZero tolerance = a.almostZero tolerance := by
  simp only [almostZero, neg_x, neg_y, neg_z, Scalar.abs_real, abs_neg]

theorem ne_zero_of_not_almostZero {a : Vec3 ℝ} {tolerance : ℝ} (htolerance : 0 < tolerance)
    (h : ¬a.almostZero tolerance = true) : a ≠ 0 := by
  rintro rfl
  simp [almostZero, htolerance] at h

/-- Another vector in place of one that almost vanishes. -/
theorem ite_almostZero_ne_zero {a b : Vec3 ℝ} {tolerance : ℝ} (htolerance : 0 < tolerance)
    (hb : b ≠ 0) : (if a.almostZero tolerance then b else a) ≠ 0 := by
  split_ifs with h
  · exact hb
  · exact ne_zero_of_not_almostZero htolerance h

theorem normSq_lt_of_almostZero {a : Vec3 ℝ} {tolerance : ℝ} (h : a.almostZero tolerance = true) :
    a.normSq < 3 * (tolerance * tolerance) := by
  simp only [almostZero, Scalar.abs_real, Bool.and_eq_true, decide_eq_true_eq] at h
  obtain ⟨⟨hx, hy⟩, hz⟩ := h
  have hsq : ∀ x : ℝ, |x| < tolerance → x * x < tolerance * tolerance := fun x hx => by
    rw [← abs_mul_abs_self x]
    exact mul_self_lt_mul_self (abs_nonneg x) hx
  simp only [normSq, dot]
  linarith [hsq _ hx, hsq _ hy, hsq _ hz]

theorem norm_ne_zero_of_not_lt {a : Vec3 ℝ} {bound : ℝ} (hbound : 0 < bound)
    (h : ¬a.norm < bound) : a.norm ≠ 0 :=
  (hbound.trans_le (not_lt.mp h)).ne'

theorem mul_ne_zero {a : Vec3 ℝ} {t : ℝ} (ha : a ≠ 0) (ht : t ≠ 0) : a * t ≠ 0 := by
  intro hzero
  refine ha (Vec3.ext ?_ ?_ ?_)
  · exact (mul_eq_zero_iff_right ht).mp (congrArg Vec3.x hzero)
  · exact (mul_eq_zero_iff_right ht).mp (congrArg Vec3.y hzero)
  · exact (mul_eq_zero_iff_right ht).mp (congrArg Vec3.z hzero)

theorem normalize_ne_zero {a : Vec3 ℝ} (h : a ≠ 0) : a.normalize ≠ 0 := by
  have hrecip : Scalar.recip a.norm ≠ 0 := by
    rw [Scalar.recip_real]
    exact inv_ne_zero (norm_pos h).ne'
  exact mul_ne_zero h hrecip

theorem normSq_normalize {a : Vec3 ℝ} (h : a ≠ 0) : a.normalize.normSq = 1 := by
  have hpos := norm_pos h
  calc a.normalize.normSq = a.normSq * (a.norm⁻¹ * a.norm⁻¹) := by
        simp only [normalize, Scalar.recip_real, normSq, dot, mul_x, mul_y, mul_z]
        ring
    _ = a.norm * a.norm * (a.norm⁻¹ * a.norm⁻¹) := by rw [norm_mul_self]
    _ = 1 := by field_simp

theorem norm_eq_one {a : Vec3 ℝ} (h : a.normSq = 1) : a.norm = 1 :=
  norm_eq_of_normSq zero_le_one (h.trans (one_mul 1).symm)

theorem xAxis_ne_zero : (xAxis : Vec3 ℝ) ≠ 0 := fun h => one_ne_zero (congrArg x h)

theorem norm_xAxis : (xAxis : Vec3 ℝ).norm = 1 :=
  norm_eq_one (by simp [normSq, dot, xAxis])

theorem norm_normalize {a : Vec3 ℝ} (h : a ≠ 0) : a.normalize.norm = 1 :=
  norm_eq_one (normSq_normalize h)

theorem perpendicular_dot_self : a.perpendicular.dot a = 0 := by
  unfold perpendicular
  split_ifs <;> simp only [dot] <;> ring

/-- The component left out is no larger than the others, so it vanishes with them. -/
theorem perpendicular_ne_zero {a : Vec3 ℝ} (h : a ≠ 0) : a.perpendicular ≠ 0 := by
  intro hzero
  unfold perpendicular at hzero
  simp only [Scalar.abs_real] at hzero
  split_ifs at hzero with hx hyz
  · have hy : a.y = 0 := congrArg Vec3.z hzero
    have hz : a.z = 0 := neg_eq_zero.mp (congrArg Vec3.y hzero)
    rw [hy, abs_zero] at hx
    exact h (Vec3.ext (abs_nonpos_iff.mp hx.1) hy hz)
  · have hx : a.x = 0 := congrArg Vec3.z hzero
    have hz : a.z = 0 := neg_eq_zero.mp (congrArg Vec3.x hzero)
    rw [hz, abs_zero] at hyz
    exact h (Vec3.ext hx (abs_nonpos_iff.mp hyz) hz)
  · have hx : a.x = 0 := congrArg Vec3.y hzero
    have hy : a.y = 0 := neg_eq_zero.mp (congrArg Vec3.x hzero)
    rw [hy, abs_zero] at hyz
    exact absurd (abs_nonneg a.z) hyz

end Products

/-! ## As a real vector space -/

noncomputable instance : AddCommGroup (Vec3 ℝ) where
  add_assoc a b c := by ext <;> simp [add_assoc]
  zero_add a := by ext <;> simp
  add_zero a := by ext <;> simp
  add_comm a b := by ext <;> simp [add_comm]
  neg_add_cancel a := by ext <;> simp
  sub_eq_add_neg a b := by ext <;> simp [sub_eq_add_neg]
  nsmul := nsmulRec
  zsmul := zsmulRec

noncomputable instance : SMul ℝ (Vec3 ℝ) := ⟨fun t a => a * t⟩

theorem mul_real (a : Vec3 ℝ) (t : ℝ) : a * t = t • a := rfl

theorem div_real (a : Vec3 ℝ) (t : ℝ) : a / t = t⁻¹ • a := by
  ext <;> simp [← mul_real, div_eq_mul_inv]

noncomputable instance : Module ℝ (Vec3 ℝ) where
  one_smul a := by ext <;> simp [← mul_real]
  mul_smul s t a := by ext <;> simp only [← mul_real, mul_x, mul_y, mul_z] <;> ring
  smul_zero t := by ext <;> simp [← mul_real]
  smul_add t a b := by ext <;> simp [← mul_real, add_mul]
  add_smul s t a := by ext <;> simp [← mul_real, mul_add]
  zero_smul a := by ext <;> simp [← mul_real]

theorem neg_mul_real (a : Vec3 ℝ) (t : ℝ) : -a * t = -(a * t) := by
  rw [mul_real, mul_real, smul_neg]

theorem normalize_neg (a : Vec3 ℝ) : (-a).normalize = -a.normalize := by
  rw [normalize, norm_neg, neg_mul_real, normalize]

theorem normalize_mul_norm {a : Vec3 ℝ} (h : a ≠ 0) : a.normalize * a.norm = a := by
  rw [normalize, Scalar.recip_real, mul_real, mul_real, smul_inv_smul₀ (norm_pos h).ne']

theorem div_norm (a : Vec3 ℝ) : a / a.norm = a.normalize := by
  rw [normalize, Scalar.recip_real, mul_real, div_real]

/-! ## Sums -/

theorem sum_eq (ps : List (Vec3 ℝ)) : Vec3.sum ps = ps.sum := List.sum_eq_foldl.symm

theorem dot_sum (v : Vec3 ℝ) (vs : List (Vec3 ℝ)) : v.dot vs.sum = (vs.map v.dot).sum := by
  induction vs with
  | nil => exact v.dot_zero
  | cons w vs ih => rw [List.sum_cons, dot_add, ih, List.map_cons, List.sum_cons]

theorem sum_map_sub (c : Vec3 ℝ) (ps : List (Vec3 ℝ)) :
    (ps.map (· - c)).sum = ps.sum - (ps.length : ℝ) • c := by
  induction ps with
  | nil => simp
  | cons p ps ih =>
    rw [List.map_cons, List.sum_cons, ih, List.sum_cons, List.length_cons, Nat.cast_succ, add_smul,
      one_smul]
    abel

theorem centroid_eq (ps : List (Vec3 ℝ)) : centroid ps = ps.sum / (ps.length : ℝ) := by
  cases ps with
  | nil =>
    rw [List.sum_nil, div_real, smul_zero]
    rfl
  | cons p ps => exact congrArg (· / _) (sum_eq _)

theorem centroid_singleton (p : Vec3 ℝ) : centroid [p] = p := by
  rw [centroid_eq, List.sum_singleton, div_real, List.length_singleton, Nat.cast_one, inv_one,
    one_smul]

theorem centroid_eq_sum {ps : List (Vec3 ℝ)} (h : ps.length ≤ 1) : centroid ps = ps.sum := by
  match ps, h with
  | [], _ => rfl
  | [p], _ => rw [centroid_singleton, List.sum_singleton]

theorem length_smul_centroid (ps : List (Vec3 ℝ)) : (ps.length : ℝ) • centroid ps = ps.sum := by
  cases ps with
  | nil => rw [List.length_nil, Nat.cast_zero, zero_smul, List.sum_nil]
  | cons p ps =>
    have hne : ((p :: ps).length : ℝ) ≠ 0 := Nat.cast_ne_zero.mpr (by simp)
    rw [centroid_eq, div_real, smul_inv_smul₀ hne]

theorem norm_sum_le {bound : ℝ} {ps : List (Vec3 ℝ)} (h : ∀ p ∈ ps, p.norm ≤ bound) :
    ps.sum.norm ≤ ps.length * bound := by
  induction ps with
  | nil => simp [norm, normSq_zero]
  | cons p ps ih =>
    obtain ⟨hp, hps⟩ := List.forall_mem_cons.mp h
    calc (p :: ps).sum.norm ≤ p.norm + ps.sum.norm := by
          rw [List.sum_cons]
          exact norm_add_le ..
      _ ≤ bound + ps.length * bound := add_le_add hp (ih hps)
      _ = (p :: ps).length * bound := by
          rw [List.length_cons, Nat.cast_succ]
          ring

theorem norm_centroid_le {bound : ℝ} (hbound : 0 ≤ bound) {ps : List (Vec3 ℝ)}
    (h : ∀ p ∈ ps, p.norm ≤ bound) : (centroid ps).norm ≤ bound := by
  have hsum := norm_sum_le h
  rw [← length_smul_centroid, ← mul_real, norm_mul, Nat.abs_cast, mul_comm] at hsum
  cases ps with
  | nil => simpa [centroid, norm, normSq_zero] using hbound
  | cons p ps => exact le_of_mul_le_mul_left hsum (Nat.cast_pos.mpr (Nat.succ_pos _))

theorem centroid_eq_zero {ps : List (Vec3 ℝ)} (h : ps.sum = 0) : centroid ps = 0 := by
  unfold centroid
  rw [sum_eq, h, div_real, smul_zero, ite_self]

/-- A point set is balanced about its centroid. -/
theorem sum_sub_centroid (ps : List (Vec3 ℝ)) : (ps.map (· - centroid ps)).sum = 0 := by
  rw [sum_map_sub, length_smul_centroid, sub_self]

theorem sum_dot_sub_centroid (v : Vec3 ℝ) (ps : List (Vec3 ℝ)) :
    (ps.map fun p => v.dot (p - centroid ps)).sum = 0 := by
  have hsum := v.dot_sum (ps.map (· - centroid ps))
  rw [sum_sub_centroid, dot_zero, List.map_map] at hsum
  exact hsum.symm

theorem centroid_zipWith_add {ps ms : List (Vec3 ℝ)} (hlength : ps.length = ms.length)
    (hsum : ms.sum = 0) : centroid (ps.zipWith (· + ·) ms) = centroid ps := by
  cases ps with
  | nil => rfl
  | cons p ps =>
    have htotal := List.sum_add_sum_eq_sum_zipWith_of_length_eq (p :: ps) ms hlength
    rw [hsum, add_zero] at htotal
    have hcount : ((p :: ps).zipWith (· + ·) ms).length = (p :: ps).length := by
      rw [List.length_zipWith, ← hlength, min_self]
    have hne : (((p :: ps).zipWith (· + ·) ms).length : ℝ) ≠ 0 := by
      rw [hcount]
      exact Nat.cast_ne_zero.mpr (Nat.succ_ne_zero _)
    apply smul_right_injective _ hne
    dsimp only
    rw [length_smul_centroid, hcount, length_smul_centroid, htotal]

end Relaxation.Vec3
