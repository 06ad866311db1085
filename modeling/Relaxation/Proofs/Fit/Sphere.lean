import Mathlib.LinearAlgebra.AffineSpace.FiniteDimensional
import Mathlib.LinearAlgebra.Dual.Lemmas
import Mathlib.Data.Real.Basic
import Relaxation.Proofs.Domain.Fit

/-!
# Best-fit spheres are least-squares fits

The moments of a point set are sums over its points (`SpaceMoments.apply_about`), and the linear system
for the center, solved by Cramer's rule, says that the algebraic errors of the points are orthogonal to
every change of the center. So the errors of another sphere exceed those of the fit by the squares of
the change, which vanish only if there is no change or the points lie in a plane. Then the determinant
of the system vanishes, too (`Sphere.fits_least_squares`).
-/

namespace Relaxation

/-! ## Planes of points -/

namespace Vec3

/-- Vectors as triples, for the dimension of their space. -/
noncomputable def coordinates : Vec3 ℝ ≃ₗ[ℝ] ℝ × ℝ × ℝ where
  toFun v := (v.x, v.y, v.z)
  invFun c := ⟨c.1, c.2.1, c.2.2⟩
  map_add' v w := rfl
  map_smul' t v := by
    have hmul : ∀ x : ℝ, x * t = t * x := fun x => mul_comm x t
    exact Prod.ext (hmul v.x) (Prod.ext (hmul v.y) (hmul v.z))
  left_inv v := rfl
  right_inv c := rfl

theorem finrank_eq : Module.finrank ℝ (Vec3 ℝ) = 3 := by
  rw [coordinates.finrank_eq, Module.finrank_prod, Module.finrank_prod, Module.finrank_self]

/-- A linear form is the product with a vector. -/
theorem exists_eq_dot (f : Vec3 ℝ →ₗ[ℝ] ℝ) : ∃ u : Vec3 ℝ, ∀ v, f v = u.dot v := by
  refine ⟨⟨f ⟨1, 0, 0⟩, f ⟨0, 1, 0⟩, f ⟨0, 0, 1⟩⟩, fun v => ?_⟩
  have hv : v = v.x • ⟨1, 0, 0⟩ + v.y • ⟨0, 1, 0⟩ + v.z • ⟨0, 0, 1⟩ := by
    ext <;> simp [← mul_real]
  conv_lhs => rw [hv]
  rw [map_add, map_add, map_smul, map_smul, map_smul]
  simp only [dot, smul_eq_mul]
  ring

/-- Points in a plane have the same product with a normal of it. -/
theorem exists_normal_of_coplanar {s : Set (Vec3 ℝ)} (h : Coplanar ℝ s) :
    ∃ u : Vec3 ℝ, u ≠ 0 ∧ ∃ t, ∀ p ∈ s, u.dot p = t := by
  have hfinite : Module.Finite ℝ (Vec3 ℝ) := .equiv coordinates.symm
  have hlt : vectorSpan ℝ s < ⊤ := by
    refine lt_top_iff_ne_top.mpr fun htop => ?_
    have hrank := (coplanar_iff_finrank_le_two).mp h
    rw [htop, finrank_top, finrank_eq] at hrank
    omega
  obtain ⟨f, hf, hker⟩ := Submodule.exists_le_ker_of_lt_top _ hlt
  obtain ⟨u, hu⟩ := exists_eq_dot f
  refine ⟨u, ?_, ?_⟩
  · rintro rfl
    refine hf (LinearMap.ext fun v => ?_)
    rw [hu, dot_comm, dot_zero, LinearMap.zero_apply]
  · obtain rfl | ⟨q, hq⟩ := s.eq_empty_or_nonempty
    · exact ⟨0, fun p hp => hp.elim⟩
    · refine ⟨u.dot q, fun p hp => ?_⟩
      have hzero : f (p - q) = 0 := hker (vsub_mem_vectorSpan ℝ hp hq)
      rw [map_sub, hu, hu] at hzero
      exact sub_eq_zero.mp hzero

/-! ## Sums of multiples -/

theorem sum_map_mul {β : Type} (l : List β) (f : β → Vec3 ℝ) (t : ℝ) :
    (l.map fun b => f b * t).sum = (l.map f).sum * t := by
  simp only [mul_real]
  rw [List.smul_sum, List.map_map]
  rfl

theorem sum_map_mul_left {β : Type} (l : List β) (f : β → ℝ) (c : Vec3 ℝ) :
    (l.map fun b => c * f b).sum = c * (l.map f).sum := by
  simp only [mul_real]
  rw [List.sum_smul, List.map_map]
  rfl

/-- A product that all points share is that of their centroid. -/
theorem dot_centroid_eq {u : Vec3 ℝ} {t : ℝ} {ps : List (Vec3 ℝ)} (hne : ps ≠ [])
    (h : ∀ p ∈ ps, u.dot p = t) : u.dot (centroid ps) = t := by
  have hsum : (ps.map u.dot).sum = ps.length * t := by
    rw [List.map_congr_left h, List.map_const', List.sum_replicate, nsmul_eq_mul]
  have hcount : (ps.length : ℝ) ≠ 0 := Domain.length_ne_zero hne
  refine mul_left_cancel₀ hcount ?_
  rw [← hsum, ← dot_sum, ← length_smul_centroid, ← mul_real, dot_mul, mul_comm]

end Vec3

/-! ## Moments as sums -/

namespace SpaceMoments

/-- What is additive in the moments is a sum over the points. -/
theorem apply_about {M : Type} [AddCommMonoid M] {f : SpaceMoments ℝ → M} {g : Vec3 ℝ → M}
    (hzero : f zero = 0) (hadd : ∀ s q, f (s.add q) = f s + g q) (c : Vec3 ℝ)
    (points : List (Vec3 ℝ)) : f (about c points) = ((points.map (· - c)).map g).sum := by
  have hsum := apply_foldl_eq_add_sum (fun s p => hadd s (p - c)) zero points
  rw [hzero, zero_add] at hsum
  rw [about, hsum, List.map_map]
  rfl

/-- The sum of the points. -/
noncomputable def first (s : SpaceMoments ℝ) : Vec3 ℝ := ⟨s.x, s.y, s.z⟩

/-- The sum of the squared lengths. -/
noncomputable def size (s : SpaceMoments ℝ) : ℝ := s.xx + s.yy + s.zz

/-- The sum of the points `q`, each as often as its product with `v` tells. -/
noncomputable def second (s : SpaceMoments ℝ) (v : Vec3 ℝ) : Vec3 ℝ :=
  ⟨s.xx * v.x + s.xy * v.y + s.xz * v.z, s.xy * v.x + s.yy * v.y + s.yz * v.z,
    s.xz * v.x + s.yz * v.y + s.zz * v.z⟩

/-- The sum of the points, each as often as its squared length tells. -/
noncomputable def third (s : SpaceMoments ℝ) : Vec3 ℝ :=
  ⟨s.xxx + s.xyy + s.xzz, s.xxy + s.yyy + s.yzz, s.xxz + s.yyz + s.zzz⟩

section Sums

variable (c : Vec3 ℝ) (points : List (Vec3 ℝ))

theorem first_about : (about c points).first = (points.map (· - c)).sum := by
  refine (apply_about (g := id) rfl (fun s q => rfl) c points).trans ?_
  rw [List.map_id]

theorem size_about : (about c points).size = ((points.map (· - c)).map Vec3.normSq).sum := by
  refine apply_about ?_ (fun s q => ?_) c points
  · simp [size, zero]
  · simp only [size, add, Vec3.normSq, Vec3.dot]
    ring

theorem second_about (v : Vec3 ℝ) :
    (about c points).second v = ((points.map (· - c)).map fun q => q * q.dot v).sum := by
  refine apply_about (f := (second · v)) ?_ (fun s q => ?_) c points
  · ext <;> simp [second, zero]
  · ext <;> simp only [second, add, Vec3.add_x, Vec3.add_y, Vec3.add_z, Vec3.mul_x, Vec3.mul_y,
      Vec3.mul_z, Vec3.dot] <;> ring

theorem third_about :
    (about c points).third = ((points.map (· - c)).map fun q => q * q.normSq).sum := by
  refine apply_about ?_ (fun s q => ?_) c points
  · ext <;> simp [third, zero]
  · ext <;> simp only [third, add, Vec3.add_x, Vec3.add_y, Vec3.add_z, Vec3.mul_x, Vec3.mul_y,
      Vec3.mul_z, Vec3.normSq, Vec3.dot] <;> ring

end Sums

end SpaceMoments

/-! ## The system for the center -/

namespace CenterSystem

/-- The left side of the equations. -/
noncomputable def apply (e : CenterSystem ℝ) (v : Vec3 ℝ) : Vec3 ℝ :=
  ⟨e.a * v.x + e.b * v.y + e.c * v.z, e.b * v.x + e.f * v.y + e.g * v.z,
    e.c * v.x + e.g * v.y + e.l * v.z⟩

/-- The right side of the equations. -/
noncomputable def rhs (e : CenterSystem ℝ) : Vec3 ℝ := ⟨e.d, e.h, e.m⟩

theorem apply_solve {e : CenterSystem ℝ} (h : e.det ≠ 0) : e.apply e.solve = e.rhs := by
  have hcancel : ∀ {x y : ℝ}, x = y * e.det → x / e.det = y := fun hx => (div_eq_iff h).mpr hx
  ext <;> simp only [apply, rhs, solve, ← mul_div_assoc, ← add_div] <;> apply hcancel <;>
    simp only [det] <;> ring

/-- A system that takes a vector to zero has no determinant. -/
theorem det_eq_zero {e : CenterSystem ℝ} {v : Vec3 ℝ} (hv : v ≠ 0) (h : e.apply v = 0) :
    e.det = 0 := by
  have hx := congrArg Vec3.x h
  have hy := congrArg Vec3.y h
  have hz := congrArg Vec3.z h
  simp only [apply, Vec3.zero_x, Vec3.zero_y, Vec3.zero_z] at hx hy hz
  have hvx : e.det * v.x = 0 := by
    rw [det]
    linear_combination (e.f * e.l - e.g * e.g) * hx - (e.b * e.l - e.c * e.g) * hy +
      (e.b * e.g - e.c * e.f) * hz
  have hvy : e.det * v.y = 0 := by
    rw [det]
    linear_combination (e.g * e.c - e.b * e.l) * hx + (e.a * e.l - e.c * e.c) * hy +
      (e.b * e.c - e.a * e.g) * hz
  have hvz : e.det * v.z = 0 := by
    rw [det]
    linear_combination (e.b * e.g - e.f * e.c) * hx + (e.b * e.c - e.a * e.g) * hy +
      (e.a * e.f - e.b * e.b) * hz
  by_contra hdet
  exact hv (Vec3.ext ((mul_eq_zero.mp hvx).resolve_left hdet)
    ((mul_eq_zero.mp hvy).resolve_left hdet) ((mul_eq_zero.mp hvz).resolve_left hdet))

theorem apply_ofMoments (n : ℝ) (s : SpaceMoments ℝ) (v : Vec3 ℝ) :
    (ofMoments n s).apply v = s.first * (2 * s.first.dot v) - s.second v * (2 * n) := by
  have htwo : (2.0 : ℝ) = 2 := by
    rw [Scalar.ofScientific_real]
    norm_num
  ext <;> simp only [ofMoments, apply, SpaceMoments.first, SpaceMoments.second, Vec3.sub_x,
    Vec3.sub_y, Vec3.sub_z, Vec3.mul_x, Vec3.mul_y, Vec3.mul_z, Vec3.dot, htwo] <;> ring

theorem rhs_ofMoments (n : ℝ) (s : SpaceMoments ℝ) :
    (ofMoments n s).rhs = s.first * s.size - s.third * n := by
  ext <;> simp only [ofMoments, rhs, SpaceMoments.first, SpaceMoments.size, SpaceMoments.third,
    Vec3.sub_x, Vec3.sub_y, Vec3.sub_z, Vec3.mul_x, Vec3.mul_y, Vec3.mul_z] <;> ring

end CenterSystem

/-! ## Algebraic errors -/

namespace Sphere

/-- The algebraic error of a point: by how much the square of its distance from the center differs from
that of the radius. -/
noncomputable def residual (s : Sphere ℝ) (p : Vec3 ℝ) : ℝ :=
  p.distSq s.center - s.radius * s.radius

/-- The sum of the squared algebraic errors. -/
noncomputable def misfit (s : Sphere ℝ) (points : List (Vec3 ℝ)) : ℝ :=
  (points.map fun p => s.residual p ^ 2).sum

theorem residual_eq_zero {s : Sphere ℝ} {p : Vec3 ℝ} (h : (p - s.center).norm = s.radius) :
    s.residual p = 0 := by
  rw [residual, ← h, Vec3.norm_mul_self]
  exact sub_self _

/-- The errors of another sphere differ by an affine function of the point. -/
theorem residual_eq_add (s t : Sphere ℝ) : ∃ k, ∀ p, t.residual p =
    s.residual p + (((s.center - t.center) * (2 : ℝ)).dot p + k) := by
  refine ⟨t.center.normSq - t.radius * t.radius - (s.center.normSq - s.radius * s.radius),
    fun p => ?_⟩
  simp only [residual, Vec3.distSq, Vec3.normSq, Vec3.dot, Vec3.sub_x, Vec3.sub_y, Vec3.sub_z,
    Vec3.mul_x, Vec3.mul_y, Vec3.mul_z]
  ring

/-- The errors are balanced, and so are the points weighted with them. -/
structure IsStationary (s : Sphere ℝ) (points : List (Vec3 ℝ)) : Prop where
  sum_residual : (points.map s.residual).sum = 0
  sum_mul_residual : (points.map fun p => p * s.residual p).sum = 0

namespace IsStationary

/-- It does not matter about which center the points are weighted. -/
theorem of_about {s : Sphere ℝ} {points : List (Vec3 ℝ)} (c : Vec3 ℝ)
    (hsum : (points.map s.residual).sum = 0)
    (hmul : (points.map fun p => (p - c) * s.residual p).sum = 0) : s.IsStationary points := by
  refine ⟨hsum, ?_⟩
  calc (points.map fun p => p * s.residual p).sum
      = (points.map fun p => (p - c) * s.residual p + c * s.residual p).sum := by
        refine congrArg List.sum (List.map_congr_left fun p _ => ?_)
        rw [Vec3.mul_real, Vec3.mul_real, Vec3.mul_real, ← smul_add, sub_add_cancel]
    _ = 0 := by
        rw [List.sum_map_add, hmul, Vec3.sum_map_mul_left, hsum, Vec3.mul_real, zero_smul, add_zero]

variable {s : Sphere ℝ} {points : List (Vec3 ℝ)} (h : s.IsStationary points)

include h

theorem sum_residual_mul (u : Vec3 ℝ) (k : ℝ) :
    (points.map fun p => s.residual p * (u.dot p + k)).sum = 0 := by
  calc (points.map fun p => s.residual p * (u.dot p + k)).sum
      = ((points.map fun p => p * s.residual p).map u.dot).sum +
          (points.map fun p => s.residual p * k).sum := by
        rw [List.map_map, ← List.sum_map_add]
        refine congrArg List.sum (List.map_congr_left fun p _ => ?_)
        rw [Function.comp_apply, Vec3.dot_mul]
        ring
    _ = u.dot 0 + 0 * k := by
        rw [← Vec3.dot_sum, h.sum_mul_residual, List.sum_map_mul_right, h.sum_residual]
    _ = 0 := by rw [Vec3.dot_zero, zero_mul, add_zero]

/-- The misfit of another sphere exceeds the least one by the squares of the differences. -/
theorem misfit_eq_add (t : Sphere ℝ) : ∃ k, t.misfit points = s.misfit points +
    (points.map fun p => (((s.center - t.center) * (2 : ℝ)).dot p + k) ^ 2).sum ∧
    ∀ p, t.residual p = s.residual p + (((s.center - t.center) * (2 : ℝ)).dot p + k) := by
  obtain ⟨k, hk⟩ := residual_eq_add s t
  refine ⟨k, ?_, hk⟩
  set u := (s.center - t.center) * (2 : ℝ)
  calc t.misfit points
      = (points.map fun p => s.residual p ^ 2 + (u.dot p + k) ^ 2 +
          2 * (s.residual p * (u.dot p + k))).sum := by
        refine congrArg List.sum (List.map_congr_left fun p _ => ?_)
        rw [hk]
        ring
    _ = s.misfit points + (points.map fun p => (u.dot p + k) ^ 2).sum := by
        rw [List.sum_map_add, List.sum_map_add, List.sum_map_mul_left, h.sum_residual_mul, mul_zero,
          add_zero]
        rfl

/-- Only points in a plane would leave a choice. -/
theorem misfit_lt (hne : points ≠ []) (hs : 0 ≤ s.radius) {t : Sphere ℝ} (ht : 0 ≤ t.radius)
    (hother : t ≠ s)
    (hspan : ∀ k, (∀ p ∈ points, ((s.center - t.center) * (2 : ℝ)).dot p + k = 0) →
      t.center = s.center) : s.misfit points < t.misfit points := by
  obtain ⟨k, hmisfit, hresidual⟩ := h.misfit_eq_add t
  set u := (s.center - t.center) * (2 : ℝ)
  have hnonneg : ∀ x ∈ points.map fun p => (u.dot p + k) ^ 2, 0 ≤ x :=
    List.forall_mem_map.mpr fun _ _ => sq_nonneg _
  rw [hmisfit]
  refine lt_add_of_pos_right _ (lt_of_le_of_ne (List.sum_nonneg hnonneg) fun hsum => hother ?_)
  have hzero : ∀ p ∈ points, u.dot p + k = 0 := fun p hp => by
    have hle := List.single_le_sum hnonneg _ (List.mem_map_of_mem hp)
    rw [← hsum] at hle
    exact pow_eq_zero_iff two_ne_zero |>.mp (le_antisymm hle (sq_nonneg _))
  have hcenter := hspan k hzero
  obtain ⟨p, hp⟩ := List.exists_mem_of_ne_nil points hne
  have hsquare := hresidual p
  rw [hzero p hp, add_zero, residual, residual, hcenter, sub_right_inj] at hsquare
  cases s
  cases t
  exact (mk.injEq ..).mpr ⟨hcenter, (mul_self_inj_of_nonneg ht hs).mp hsquare⟩

end IsStationary

/-! ## Points about the origin -/

section Balanced

variable {qs : List (Vec3 ℝ)} {o : Vec3 ℝ}

/-- The square of the radius whose errors are balanced. -/
noncomputable def radiusSq (qs : List (Vec3 ℝ)) (o : Vec3 ℝ) : ℝ :=
  o.normSq + (qs.map Vec3.normSq).sum / qs.length

theorem radiusSq_nonneg (qs : List (Vec3 ℝ)) (o : Vec3 ℝ) : 0 ≤ radiusSq qs o :=
  add_nonneg o.normSq_nonneg (div_nonneg
    (List.sum_nonneg (List.forall_mem_map.mpr fun q _ => q.normSq_nonneg)) (Nat.cast_nonneg _))

/-- The sphere about a point whose errors are balanced. -/
noncomputable def balanced (qs : List (Vec3 ℝ)) (o : Vec3 ℝ) : Sphere ℝ :=
  ⟨o, Real.sqrt (radiusSq qs o)⟩

theorem residual_balanced (q : Vec3 ℝ) : (balanced qs o).residual q =
    q.normSq + q.dot o * -2 + -((qs.map Vec3.normSq).sum / qs.length) := by
  rw [residual, balanced]
  dsimp only
  rw [Real.mul_self_sqrt (radiusSq_nonneg qs o), radiusSq]
  simp only [Vec3.distSq, Vec3.normSq, Vec3.dot, Vec3.sub_x, Vec3.sub_y, Vec3.sub_z]
  ring

/-- The normal equations for points whose centroid is the origin: what is left of them is linear in the
center. -/
theorem IsStationary.of_balanced (hne : qs ≠ []) (hsum : qs.sum = 0)
    (h : (qs.map fun q => q * q.dot o).sum * (2 : ℝ) = (qs.map fun q => q * q.normSq).sum) :
    (balanced qs o).IsStationary qs := by
  have hcount : (qs.length : ℝ) ≠ 0 := Domain.length_ne_zero hne
  constructor
  · have hdot : (qs.map fun q => q.dot o).sum = 0 := by
      rw [List.map_congr_left fun q _ => Vec3.dot_comm q o, ← Vec3.dot_sum, hsum, Vec3.dot_zero]
    rw [List.map_congr_left fun q _ => residual_balanced q, List.sum_map_add, List.sum_map_add,
      List.sum_map_mul_right, hdot, List.map_const', List.sum_replicate, nsmul_eq_mul]
    field_simp
    ring
  · set k := -((qs.map Vec3.normSq).sum / qs.length)
    calc (qs.map fun q => q * (balanced qs o).residual q).sum
        = (qs.map fun q : Vec3 ℝ => q * q.normSq + q * q.dot o * (-2 : ℝ) + q * k).sum := by
          refine congrArg List.sum (List.map_congr_left fun q _ => ?_)
          rw [residual_balanced, Vec3.mul_real, add_smul, add_smul, mul_comm (Vec3.dot _ _), mul_smul]
          rfl
      _ = (qs.map fun q => q * q.normSq).sum + (qs.map fun q => q * q.dot o).sum * (-2 : ℝ) +
            (0 : Vec3 ℝ) * k := by
          rw [List.sum_map_add, List.sum_map_add, Vec3.sum_map_mul, Vec3.sum_map_mul, List.map_id',
            hsum]
      _ = 0 := by
          rw [← h, Vec3.mul_real, Vec3.mul_real, Vec3.mul_real, ← add_smul, add_neg_cancel,
            zero_smul, smul_zero, add_zero]

end Balanced

/-! ## The fit -/

section Fit

variable (points : List (Vec3 ℝ))

/-- The moments about the centroid. -/
noncomputable def moments : SpaceMoments ℝ := SpaceMoments.about (Vec3.centroid points) points

/-- The normal equations for the offset of the center from the centroid. -/
noncomputable def system : CenterSystem ℝ := CenterSystem.ofMoments points.length (moments points)

/-- The sphere about the point that solves the normal equations. -/
noncomputable def fitted : Sphere ℝ :=
  let offset := (system points).solve
  ⟨Vec3.centroid points + offset,
    Real.sqrt (offset.normSq + (moments points).size / points.length)⟩

theorem first_moments : (moments points).first = 0 :=
  (SpaceMoments.first_about ..).trans (Vec3.sum_sub_centroid points)

theorem size_moments : (moments points).size =
    ((points.map (· - Vec3.centroid points)).map Vec3.normSq).sum :=
  SpaceMoments.size_about ..

/-- About its centroid the fit is that of points about the origin. -/
theorem fitted_eq : fitted points =
    ⟨Vec3.centroid points + (system points).solve,
      (balanced (points.map (· - Vec3.centroid points)) (system points).solve).radius⟩ := by
  rw [fitted, balanced, radiusSq, ← size_moments, List.length_map]

theorem apply_system (v : Vec3 ℝ) :
    (system points).apply v = -((moments points).second v * (2 * points.length : ℝ)) := by
  rw [system, CenterSystem.apply_ofMoments, first_moments, Vec3.mul_real, smul_zero, zero_sub]

theorem rhs_system :
    (system points).rhs = -((moments points).third * (points.length : ℝ)) := by
  rw [system, CenterSystem.rhs_ofMoments, first_moments, Vec3.mul_real, smul_zero, zero_sub]

/-- About the centroid the first moments vanish, so the square of the radius is a sum of squares. -/
theorem ofPoints?_eq : ofPoints? points =
    if points.length < 4 ∨ |(system points).det| ≤ sphereTolerance * (system points).magnitude
    then none else some (fitted points) := by
  have hradius : ∀ o : Vec3 ℝ, o.x * o.x + o.y * o.y + o.z * o.z +
      (((moments points).xx + (moments points).yy + (moments points).zz) -
        2.0 * (o.x * (moments points).x + o.y * (moments points).y + o.z * (moments points).z)) /
        (points.length : ℝ) = o.normSq + (moments points).size / points.length := by
    intro o
    have hx : (moments points).x = 0 := congrArg Vec3.x (first_moments points)
    have hy : (moments points).y = 0 := congrArg Vec3.y (first_moments points)
    have hz : (moments points).z = 0 := congrArg Vec3.z (first_moments points)
    rw [hx, hy, hz, mul_zero, mul_zero, mul_zero, add_zero, add_zero, mul_zero, sub_zero]
    rfl
  have hradiusSq := hradius (system points).solve
  have hnonneg := not_lt.mpr
    (radiusSq_nonneg (points.map (· - Vec3.centroid points)) (system points).solve)
  rw [radiusSq, ← size_moments, List.length_map] at hnonneg
  unfold ofPoints?
  rw [ite_or]
  refine if_congr Iff.rfl rfl (if_congr Iff.rfl rfl ?_)
  unfold system moments at *
  dsimp only
  rw [hradiusSq, if_neg hnonneg]
  rfl

variable {points}

/-- The second moments of points in a plane do not see its normal. -/
theorem det_system_eq_zero {u : Vec3 ℝ} {t : ℝ} (hu : u ≠ 0) (ht : ∀ p ∈ points, u.dot p = t) :
    (system points).det = 0 := by
  have hterm : ∀ q ∈ points.map (· - Vec3.centroid points), q * q.dot u = 0 := by
    intro q hq
    obtain ⟨p, hp, rfl⟩ := List.mem_map.mp hq
    have hcentroid := Vec3.dot_centroid_eq (List.ne_nil_of_mem hp) ht
    rw [Vec3.dot_comm, sub_eq_add_neg, Vec3.dot_add, Vec3.dot_neg, hcentroid, ht p hp,
      add_neg_cancel, Vec3.mul_real, zero_smul]
  refine CenterSystem.det_eq_zero hu ?_
  rw [apply_system, moments, SpaceMoments.second_about, List.map_congr_left hterm, List.map_const',
    List.sum_replicate, smul_zero, Vec3.mul_real, smul_zero, neg_zero]

/-! ## The fit is the least-squares fit -/

theorem residual_fitted (p : Vec3 ℝ) : (fitted points).residual p =
    (balanced (points.map (· - Vec3.centroid points)) (system points).solve).residual
      (p - Vec3.centroid points) := by
  rw [fitted_eq, residual, residual, Vec3.distSq, Vec3.distSq, sub_sub]
  rfl

/-- The normal equations, solved. -/
theorem second_solve (hne : points ≠ []) (h : (system points).det ≠ 0) :
    (moments points).second (system points).solve * (2 : ℝ) = (moments points).third := by
  have hequation := CenterSystem.apply_solve h
  rw [apply_system, rhs_system, neg_inj] at hequation
  have hcount : (points.length : ℝ) ≠ 0 := Domain.length_ne_zero hne
  refine smul_right_injective _ hcount ?_
  dsimp only
  rw [← Vec3.mul_real (moments points).third, ← hequation, Vec3.mul_real, Vec3.mul_real, smul_smul,
    mul_comm]

theorem isStationary_fitted (hne : points ≠ []) (h : (system points).det ≠ 0) :
    (fitted points).IsStationary points := by
  have hbalanced := IsStationary.of_balanced (mt List.map_eq_nil_iff.mp hne)
    (Vec3.sum_sub_centroid points) (o := (system points).solve) <| by
      rw [← SpaceMoments.second_about, ← SpaceMoments.third_about]
      exact second_solve hne h
  refine .of_about (Vec3.centroid points) ?_ ?_
  · rw [← hbalanced.sum_residual, List.map_map]
    exact congrArg List.sum (List.map_congr_left fun p _ => residual_fitted p)
  · rw [← hbalanced.sum_mul_residual, List.map_map]
    exact congrArg List.sum
      (List.map_congr_left fun p _ => congrArg (_ * ·) (residual_fitted p))

theorem misfit_fitted_lt (hne : points ≠ []) (h : (system points).det ≠ 0) {t : Sphere ℝ}
    (hradius : 0 ≤ t.radius) (hother : t ≠ fitted points) :
    (fitted points).misfit points < t.misfit points := by
  refine (isStationary_fitted hne h).misfit_lt hne (Real.sqrt_nonneg _) hradius hother
    fun k hzero => ?_
  by_contra hdiffer
  have hu : ((fitted points).center - t.center) * (2 : ℝ) ≠ 0 :=
    Vec3.mul_ne_zero (sub_ne_zero.mpr (Ne.symm hdiffer)) two_ne_zero
  exact h (det_system_eq_zero hu fun p hp => eq_neg_of_add_eq_zero_left (hzero p hp))

end Fit

/-- The sphere that the points are nearest to, as their algebraic errors tell, and the only one. -/
structure IsLeastSquares (s : Sphere ℝ) (points : List (Vec3 ℝ)) : Prop where
  radius_nonneg : 0 ≤ s.radius
  misfit_lt (t : Sphere ℝ) : 0 ≤ t.radius → t ≠ s → s.misfit points < t.misfit points

theorem misfit_nonneg (s : Sphere ℝ) (points : List (Vec3 ℝ)) : 0 ≤ s.misfit points :=
  List.sum_nonneg (List.forall_mem_map.mpr fun _ _ => sq_nonneg _)

/-- A sphere that all points lie on has no errors. -/
theorem IsLeastSquares.eq_of_on {s t : Sphere ℝ} {points : List (Vec3 ℝ)}
    (h : s.IsLeastSquares points) (hradius : 0 ≤ t.radius)
    (hon : ∀ p ∈ points, (p - t.center).norm = t.radius) : t = s := by
  by_contra hne
  have hzero : t.misfit points = 0 := by
    refine List.sum_eq_zero (List.forall_mem_map.mpr fun p hp => ?_)
    rw [residual_eq_zero (hon p hp), zero_pow two_ne_zero]
  exact (h.misfit_lt t hradius hne).not_ge (hzero.trans_le (s.misfit_nonneg points))

/-- A sphere is fitted exactly where the determinant is large enough, never to points in a plane, and
it is the one with the least sum of squared algebraic errors. -/
theorem fits_least_squares (points : List (Vec3 ℝ)) :
    (∀ s, ofPoints? points = some s → s.IsLeastSquares points ∧
      ∀ t : Sphere ℝ, 0 ≤ t.radius → (∀ p ∈ points, (p - t.center).norm = t.radius) → t = s) ∧
    (points.length < 4 ∨ Coplanar ℝ {p | p ∈ points} ∨ Collinear ℝ {p | p ∈ points} ∨
      {p | p ∈ points}.Subsingleton → ofPoints? points = none) ∧
    (ofPoints? points = none ↔ points.length < 4 ∨
      |(system points).det| ≤ sphereTolerance * (system points).magnitude) := by
  have hbound := mul_nonneg Domain.sphereTolerance_nonneg (Domain.magnitude_nonneg (system points))
  refine ⟨fun s hs => ?_, fun hflat => ?_, ?_⟩
  · rw [ofPoints?_eq, Option.ite_none_left_eq_some, not_or] at hs
    obtain ⟨⟨hlength, hdet⟩, heq⟩ := hs
    cases Option.some.inj heq
    have hne : points ≠ [] := by
      rintro rfl
      exact hlength (by decide)
    have hleast : (fitted points).IsLeastSquares points :=
      ⟨Real.sqrt_nonneg _, fun t => misfit_fitted_lt hne (Domain.ne_zero_of_not_abs_le hbound hdet)⟩
    exact ⟨hleast, fun t => hleast.eq_of_on⟩
  · have hsingular : Coplanar ℝ {p | p ∈ points} →
        |(system points).det| ≤ sphereTolerance * (system points).magnitude := by
      intro hcoplanar
      obtain ⟨u, hu, t, ht⟩ := Vec3.exists_normal_of_coplanar hcoplanar
      rw [det_system_eq_zero hu ht, abs_zero]
      exact hbound
    rw [ofPoints?_eq]
    refine if_pos (hflat.imp_right fun hflat => hsingular ?_)
    rcases hflat with hcoplanar | hcollinear | hcoincident
    · exact hcoplanar
    · exact hcollinear.coplanar
    · obtain hempty | ⟨p, hp⟩ := hcoincident.eq_empty_or_singleton
      · exact hempty ▸ coplanar_empty ℝ (Vec3 ℝ)
      · exact hp ▸ coplanar_singleton ℝ p
  · rw [ofPoints?_eq, ite_eq_left_iff]
    simp only [reduceCtorEq, imp_false, not_not]

/-- Four corners of a cube determine the sphere about it. -/
theorem fits_least_squares_corners :
    ofPoints? [(⟨0, 0, 0⟩ : Vec3 ℝ), ⟨2, 0, 0⟩, ⟨0, 2, 0⟩, ⟨0, 0, 2⟩] =
      some ⟨⟨1, 1, 1⟩, Real.sqrt 3⟩ := by
  obtain ⟨hfit, -, hnone⟩ :=
    fits_least_squares [(⟨0, 0, 0⟩ : Vec3 ℝ), ⟨2, 0, 0⟩, ⟨0, 2, 0⟩, ⟨0, 0, 2⟩]
  have hsystem : system [(⟨0, 0, 0⟩ : Vec3 ℝ), ⟨2, 0, 0⟩, ⟨0, 2, 0⟩, ⟨0, 0, 2⟩] =
      ⟨-24, 8, 8, -24, 8, -24, -4, -4, -4⟩ := by
    simp [system, moments, SpaceMoments.about, SpaceMoments.add, SpaceMoments.zero,
      CenterSystem.ofMoments, Vec3.centroid, Vec3.sum]
    norm_num
  have hsome : ofPoints? [(⟨0, 0, 0⟩ : Vec3 ℝ), ⟨2, 0, 0⟩, ⟨0, 2, 0⟩, ⟨0, 0, 2⟩] ≠ none := by
    rw [Ne, hnone, hsystem]
    simp [CenterSystem.det, CenterSystem.magnitude, sphereTolerance]
    norm_num
  obtain ⟨s, hs⟩ := Option.ne_none_iff_exists'.mp hsome
  rw [hs, ← (hfit s hs).2 ⟨⟨1, 1, 1⟩, Real.sqrt 3⟩ (Real.sqrt_nonneg 3) fun p hp => ?_]
  have hon : (p - ⟨1, 1, 1⟩).normSq = 3 := by
    fin_cases hp <;> simp [Vec3.normSq, Vec3.dot] <;> norm_num
  rw [Vec3.norm, hon, Scalar.sqrt_real]

end Sphere
end Relaxation
