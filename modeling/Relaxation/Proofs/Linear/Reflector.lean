import Mathlib.Data.Matrix.Mul
import Mathlib.Tactic.FieldSimp
import Relaxation.Proofs.Linear.DenseMatrix

/-!
# Reflections

A Householder reflection is the identity plus a multiple of the square of a vector. With the vector
that `Householder` describes it takes a given vector onto a coordinate axis; the reduction to
bidiagonal form finds such vectors by a scaled computation (`householder_scaled`).
-/

namespace Relaxation

open Matrix

variable {n p : ℕ}

/-- The reflection along `u`, whose squared length is `-2 * β`; for the zero vector the identity. -/
noncomputable def reflector (u : Fin n → ℝ) (β : ℝ) : Matrix (Fin n) (Fin n) ℝ :=
  1 + β⁻¹ • vecMulVec u u

theorem reflector_mul_apply (u : Fin n → ℝ) (β : ℝ) (a : Matrix (Fin n) (Fin p) ℝ) (i : Fin n)
    (j : Fin p) : (reflector u β * a) i j = a i j + β⁻¹ * u i * ∑ k, u k * a k j := by
  rw [reflector, Matrix.add_mul, Matrix.one_mul, Matrix.smul_mul, Matrix.add_apply,
    Matrix.smul_apply, Matrix.mul_apply]
  simp only [vecMulVec_apply, smul_eq_mul, Finset.mul_sum, mul_assoc]

theorem reflector_zero (u : Fin n → ℝ) : reflector u 0 = 1 := by
  simp [reflector]

theorem reflector_transpose (u : Fin n → ℝ) (β : ℝ) : (reflector u β)ᵀ = reflector u β := by
  ext i j
  simp only [reflector, transpose_apply, Matrix.add_apply, Matrix.smul_apply, vecMulVec_apply,
    Matrix.one_apply, eq_comm, mul_comm]

theorem reflector_mul_self {u : Fin n → ℝ} {β : ℝ} (h : ∑ k, u k * u k = -2 * β) :
    reflector u β * reflector u β = 1 := by
  ext i j
  rw [reflector_mul_apply]
  have hsum : ∑ k, u k * reflector u β k j = u j + β⁻¹ * (-2 * β) * u j := by
    simp only [reflector, Matrix.add_apply, Matrix.smul_apply, vecMulVec_apply, smul_eq_mul,
      mul_add, Finset.sum_add_distrib, Matrix.one_apply, mul_ite, mul_one, mul_zero,
      Finset.sum_ite_eq', Finset.mem_univ, if_true, ← h, Finset.mul_sum, Finset.sum_mul]
    congr 1
    exact Finset.sum_congr rfl fun k _ => by ring
  rw [hsum, reflector, Matrix.add_apply, Matrix.smul_apply, vecMulVec_apply, smul_eq_mul]
  rcases eq_or_ne β 0 with rfl | hβ
  · simp
  · field_simp
    ring

/-- The vector `u`, supported from `t` on, takes the entries of `x` from `t` on to the single entry
`d` at `t`. -/
structure Householder (t : Fin n) (x u : Fin n → ℝ) (d : ℝ) : Prop where
  support : ∀ k < t, u k = 0
  dot_self : ∑ k, u k * u k = -2 * (u t * d)
  ne_zero : d ≠ 0 → u t ≠ 0
  image : ∀ k, t ≤ k → x k + (u t * d)⁻¹ * u k * ∑ l, u l * x l = if k = t then d else 0

theorem Householder.zero {t : Fin n} {x : Fin n → ℝ} (h : ∀ k, t ≤ k → x k = 0) :
    Householder t x 0 0 where
  support _ _ := rfl
  dot_self := by simp
  ne_zero h := absurd rfl h
  image k hk := by simp [h k hk]

theorem sign_mul_self (a b : ℝ) : Scalar.withSignOf a b * Scalar.withSignOf a b = a * a := by
  unfold Scalar.withSignOf
  split <;> simp

theorem mul_sign_nonneg (a b : ℝ) : 0 ≤ b * Scalar.withSignOf a b := by
  unfold Scalar.withSignOf
  split
  next h => exact mul_nonneg h (abs_nonneg a)
  next h => exact mul_nonneg_of_nonpos_of_nonpos (not_le.mp h).le (neg_nonpos.mpr (abs_nonneg a))

section Sums

variable {P : Fin n → Prop} [DecidablePred P] {x : Fin n → ℝ}

theorem sum_abs_eq_zero_iff :
    ∑ k, (if P k then |x k| else 0) = 0 ↔ ∀ k, P k → x k = 0 := by
  rw [Finset.sum_eq_zero_iff_of_nonneg fun k _ => by split <;> simp]
  simp

/-- Scaled by other than zero, entries that do not all vanish have a positive sum of squares. -/
theorem sum_scaled_pos {c : ℝ} (hc : c ≠ 0) (hne : ∑ k, (if P k then |x k| else 0) ≠ 0) :
    0 < ∑ k, if P k then x k / c * (x k / c) else 0 := by
  have hnonneg : ∀ k ∈ Finset.univ, 0 ≤ if P k then x k / c * (x k / c) else 0 := by
    intro k _
    split
    · exact mul_self_nonneg _
    · exact le_rfl
  have hsome : ∃ k, P k ∧ x k ≠ 0 := by
    by_contra hnone
    push Not at hnone
    exact hne (sum_abs_eq_zero_iff.mpr hnone)
  obtain ⟨k, hk, hx⟩ := hsome
  refine Finset.sum_pos' hnonneg ⟨k, Finset.mem_univ k, ?_⟩
  rw [if_pos hk]
  exact mul_self_pos.mpr (div_ne_zero hx hc)

end Sums

/-- Scaling by `c` first, and taking the sign against the first entry, leads to a vector that
reflects onto the axis. -/
theorem householder_scaled {t : Fin n} {x : Fin n → ℝ} {c s g : ℝ} (hc : c ≠ 0)
    (hs : ∑ k, (if t ≤ k then x k / c * (x k / c) else 0) = s)
    (hne : ∑ k, (if t ≤ k then |x k| else 0) ≠ 0)
    (hg : -Scalar.withSignOf (√s) (x t / c) = g) :
    Householder t x
      (fun k => if t ≤ k then (if k = t then x t / c - g else x k / c) * c else 0) (c * g) := by
  have hpos : 0 < s := hs ▸ sum_scaled_pos hc hne
  have hgg : g * g = s := by
    rw [← hg, neg_mul_neg, sign_mul_self, Real.mul_self_sqrt hpos.le]
  have hfg : x t / c * g ≤ 0 := by
    rw [← hg, mul_neg, neg_nonpos]
    exact mul_sign_nonneg _ _
  have hgne : g ≠ 0 := fun h => by simp [h, ← hgg] at hpos
  have htop : x t / c - g ≠ 0 := fun h => by
    rw [sub_eq_zero.mp h, hgg] at hfg
    exact hfg.not_gt hpos
  -- The vector is the scaled one less `g` at `t`, so its products come from those of the latter.
  set z : Fin n → ℝ := fun k => if t ≤ k then x k / c else 0 with hz
  set u : Fin n → ℝ :=
    fun k => if t ≤ k then (if k = t then x t / c - g else x k / c) * c else 0 with hudef
  have hzt : z t = x t / c := if_pos le_rfl
  have hut : u t = c * (x t / c - g) := by simp only [hudef, le_refl, if_true, mul_comm]
  have hu : ∀ k, u k = c * (z k - if k = t then g else 0) := by
    intro k
    by_cases hk : t ≤ k
    · by_cases hkt : k = t
      · rw [hkt, hut, hzt, if_pos rfl]
      · simp only [hudef, hz, hk, hkt, if_true, if_false, sub_zero, mul_comm]
    · have hkt : k ≠ t := fun h => hk h.ge
      simp only [hudef, hz, hk, hkt, if_false, sub_zero, mul_zero]
  have hsum : ∀ y : Fin n → ℝ, ∑ k, u k * y k = c * (∑ k, z k * y k - g * y t) := by
    intro y
    simp only [hu, mul_assoc, ← Finset.mul_sum, sub_mul, Finset.sum_sub_distrib, ite_mul, zero_mul,
      Finset.sum_ite_eq', Finset.mem_univ, if_true]
  have hzz : ∑ k, z k * z k = s := by
    rw [← hs]
    refine Finset.sum_congr rfl fun k _ => ?_
    by_cases hk : t ≤ k <;> simp [hz, hk]
  have huz : ∑ k, u k * z k = c * (s - g * (x t / c)) := by rw [hsum, hzz, hzt]
  have hux : ∑ k, u k * x k = c * (c * (s - g * (x t / c))) := by
    rw [← huz, Finset.mul_sum]
    refine Finset.sum_congr rfl fun k _ => ?_
    by_cases hk : t ≤ k
    · simp only [hz, hk, if_true]
      field_simp
    · simp only [hudef, hk, if_false, zero_mul, mul_zero]
  refine ⟨fun k hk => if_neg (not_le.mpr hk), ?_, fun _ => ?_, fun k hk => ?_⟩
  · have hzu : ∑ k, z k * u k = ∑ k, u k * z k := Finset.sum_congr rfl fun k _ => mul_comm _ _
    rw [hsum, hzu, huz, hut, ← hgg]
    ring
  · rw [hut]
    exact mul_ne_zero hc htop
  · have hxk : x k = c * z k := by
      simp only [hz, hk, if_true]
      field_simp
    rw [hux, hut, hu k, hxk, ← hgg]
    have hcancel : g * g - g * (x t / c) = -(g * (x t / c - g)) := by ring
    rw [hcancel]
    generalize x t / c - g = f at htop ⊢
    split <;> field_simp <;> ring

end Relaxation
