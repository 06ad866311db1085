import Mathlib.Data.Real.Basic
import Relaxation.Proofs.Fit.Axes
import Relaxation.Proofs.Fit.Sphere

/-!
# Best-fit circles are least-squares fits in their plane

Laid out in the coordinates of the plane, with the centroid as origin, the points are balanced, and the
center that the moments give by Cramer's rule solves their normal equations. So the circle is the
equator of a sphere whose algebraic errors are orthogonal to every change within the plane
(`Sphere.IsStationary.of_balanced`), and it has the least errors of all circles in the plane
(`Circle.isLeastSquares_of_inPlane?`). For points on a line the plane itself tells that there is no
circle (`Circle.solves_in_plane`).
-/

namespace Relaxation

/-! ## Plane coordinates -/

namespace Vec2

theorem toVec3_injective : Function.Injective (toVec3 : Vec2 ℝ → Vec3 ℝ) := fun _ _ h =>
  Vec2.ext (congrArg Vec3.x h) (congrArg Vec3.y h)

theorem toVec3_sub (o o' : Vec2 ℝ) : (o - o').toVec3 = o.toVec3 - o'.toVec3 := by
  ext <;> simp [toVec3]

theorem toVec3_mul (o : Vec2 ℝ) (t : ℝ) : (o * t).toVec3 = o.toVec3 * t := by
  ext <;> simp [toVec3]

end Vec2

namespace PlaneFit

/-- The coordinates of a point in the axes of the plane. -/
noncomputable def plan (l : PlaneFit ℝ) (p : Vec3 ℝ) : Vec2 ℝ :=
  ⟨(p - l.origin).dot l.xAxis, (p - l.origin).dot l.yAxis⟩

/-- The axes and the normal are perpendicular unit vectors. -/
def Framed (l : PlaneFit ℝ) : Prop := (⟨l.xAxis, l.yAxis, l.normal⟩ : Mat3 ℝ).IsOrthogonal

/-- The points laid out in the coordinates of the plane. -/
noncomputable def layout (l : PlaneFit ℝ) (points : List (Vec3 ℝ)) : List (Vec3 ℝ) :=
  points.map fun p => (l.plan p).toVec3

variable {l : PlaneFit ℝ} {points : List (Vec3 ℝ)}

theorem sum_layout (h : l.origin = Vec3.centroid points) : (l.layout points).sum = 0 := by
  let flat : Vec3 ℝ →+ Vec3 ℝ :=
    { toFun v := ⟨v.dot l.xAxis, v.dot l.yAxis, 0⟩
      map_zero' := by ext <;> simp [Vec3.dot]
      map_add' v w := by ext <;> simp only [Vec3.dot, Vec3.add_x, Vec3.add_y, Vec3.add_z] <;> ring }
  have hflat : l.layout points = (points.map (· - Vec3.centroid points)).map flat := by
    rw [List.map_map, ← h]
    rfl
  rw [hflat, ← map_list_sum, Vec3.sum_sub_centroid, map_zero]

theorem Framed.normSq_eq (h : l.Framed) (v : Vec3 ℝ) :
    v.normSq = v.dot l.xAxis ^ 2 + v.dot l.yAxis ^ 2 + v.dot l.normal ^ 2 := by
  rw [← h.transpose.normSq_mul v]
  simp only [Mat3.transpose, Mat3.ofRows, Vec3.normSq, Vec3.dot, Mat3.mul_x, Mat3.mul_y, Mat3.mul_z]
  ring

/-- Within the plane the coordinates tell how far apart points are. -/
theorem Framed.normSq_sub_eq (h : l.Framed) {p q : Vec3 ℝ} (hp : p ∈ l.carrier)
    (hq : q ∈ l.carrier) : (p - q).normSq =
      ((l.plan p).x - (l.plan q).x) ^ 2 + ((l.plan p).y - (l.plan q).y) ^ 2 := by
  have hsub : ∀ a, (p - q).dot a = (p - l.origin).dot a - (q - l.origin).dot a := fun a => by
    simp only [Vec3.dot, Vec3.sub_x, Vec3.sub_y, Vec3.sub_z]
    ring
  rw [Plane.carrier, Set.mem_ofPred_eq] at hp hq
  rw [h.normSq_eq, hsub, hsub, hsub, hp, hq, sub_zero, zero_pow two_ne_zero, add_zero]
  rfl

/-- The point in the plane with given coordinates. -/
noncomputable def pointAt (l : PlaneFit ℝ) (o : Vec2 ℝ) : Vec3 ℝ :=
  l.origin + l.xAxis * o.x + l.yAxis * o.y

theorem dot_pointAt (l : PlaneFit ℝ) (o : Vec2 ℝ) (a : Vec3 ℝ) :
    (l.pointAt o - l.origin).dot a = l.xAxis.dot a * o.x + l.yAxis.dot a * o.y := by
  simp only [pointAt, Vec3.dot, Vec3.sub_x, Vec3.sub_y, Vec3.sub_z, Vec3.add_x, Vec3.add_y,
    Vec3.add_z, Vec3.mul_x, Vec3.mul_y, Vec3.mul_z]
  ring

theorem Framed.pointAt_mem (h : l.Framed) (o : Vec2 ℝ) : l.pointAt o ∈ l.carrier := by
  obtain ⟨-, -, -, -, hxn, hyn⟩ := Mat3.isOrthogonal_iff_columns.mp h
  dsimp only at hxn hyn
  rw [Plane.carrier, Set.mem_ofPred_eq, dot_pointAt, hxn, hyn, zero_mul, zero_mul, add_zero]

theorem Framed.plan_pointAt (h : l.Framed) (o : Vec2 ℝ) : l.plan (l.pointAt o) = o := by
  obtain ⟨hxx, hyy, -, hxy, -, -⟩ := Mat3.isOrthogonal_iff_columns.mp h
  dsimp only at hxx hyy hxy
  have hyx : l.yAxis.dot l.xAxis = 0 := (Vec3.dot_comm ..).trans hxy
  rw [plan, dot_pointAt, dot_pointAt, hxx, hyy, hxy, hyx]
  ext <;> simp

end PlaneFit

/-! ## Moments as sums -/

namespace PlaneMoments

/-- What is additive in the moments is a sum over the points as they are laid out. -/
theorem apply_ofPoints {M : Type} [AddCommMonoid M] {f : PlaneMoments ℝ → M} {g : Vec3 ℝ → M}
    (hzero : f zero = 0) (hadd : ∀ m (q : Vec2 ℝ), f (m.add q.x q.y) = f m + g q.toVec3)
    (l : PlaneFit ℝ) (points : List (Vec3 ℝ)) :
    f (ofPoints l points) = ((l.layout points).map g).sum := by
  have hsum := apply_foldl_eq_add_sum (fun m p => hadd m (l.plan p)) zero points
  rw [hzero, zero_add] at hsum
  rw [PlaneFit.layout, List.map_map]
  exact hsum

variable (m : PlaneMoments ℝ)

/-- The sum of the squared lengths. -/
noncomputable def size : ℝ := m.uu + m.vv

/-- The determinant of the second moments. -/
noncomputable def det : ℝ := m.uu * m.vv - m.uv * m.uv

/-- The sum of the points `q`, each as often as its product with `o` tells. -/
noncomputable def second (o : Vec2 ℝ) : Vec2 ℝ :=
  ⟨m.uu * o.x + m.uv * o.y, m.uv * o.x + m.vv * o.y⟩

/-- The sum of the points, each as often as its squared length tells. -/
noncomputable def third : Vec2 ℝ := ⟨m.uuu + m.uvv, m.vvv + m.vuu⟩

/-- The solution of the normal equations. -/
noncomputable def center : Vec2 ℝ :=
  ⟨(0.5 * m.third.x * m.vv - m.uv * (0.5 * m.third.y)) / m.det,
    (m.uu * (0.5 * m.third.y) - m.uv * (0.5 * m.third.x)) / m.det⟩

variable {m}

theorem second_center (h : m.det ≠ 0) : m.second m.center * (2 : ℝ) = m.third := by
  have hhalf : (0.5 : ℝ) = 2⁻¹ := by norm_num
  ext <;> simp only [second, center, Vec2.mul_x, Vec2.mul_y, hhalf] <;> field_simp <;> rw [det] <;>
    ring

theorem eq_zero_of_second (h : m.det ≠ 0) {o : Vec2 ℝ} (ho : m.second o = 0) : o = 0 := by
  have hx := congrArg Vec2.x ho
  have hy := congrArg Vec2.y ho
  simp only [second, Vec2.zero_x, Vec2.zero_y] at hx hy
  have hox : m.det * o.x = 0 := by
    rw [det]
    linear_combination m.vv * hx - m.uv * hy
  have hoy : m.det * o.y = 0 := by
    rw [det]
    linear_combination m.uu * hy - m.uv * hx
  exact Vec2.ext ((mul_eq_zero.mp hox).resolve_left h) ((mul_eq_zero.mp hoy).resolve_left h)

section Sums

variable (l : PlaneFit ℝ) (points : List (Vec3 ℝ))

theorem size_ofPoints : (ofPoints l points).size = ((l.layout points).map Vec3.normSq).sum := by
  refine apply_ofPoints ?_ (fun m q => ?_) l points
  · simp [size, zero]
  · simp only [size, add, Vec2.toVec3, Vec3.normSq, Vec3.dot]
    ring

theorem second_ofPoints (o : Vec2 ℝ) : ((ofPoints l points).second o).toVec3 =
    ((l.layout points).map fun q => q * q.dot o.toVec3).sum := by
  refine apply_ofPoints (f := fun m => (m.second o).toVec3) ?_ (fun m q => ?_) l points
  · ext <;> simp [second, zero, Vec2.toVec3]
  · ext <;> simp only [second, add, Vec2.toVec3, Vec3.add_x, Vec3.add_y, Vec3.add_z, Vec3.mul_x,
      Vec3.mul_y, Vec3.mul_z, Vec3.dot] <;> ring

theorem third_ofPoints : (ofPoints l points).third.toVec3 =
    ((l.layout points).map fun q => q * q.normSq).sum := by
  refine apply_ofPoints (f := fun m => m.third.toVec3) ?_ (fun m q => ?_) l points
  · ext <;> simp [third, zero, Vec2.toVec3]
  · ext <;> simp only [third, add, Vec2.toVec3, Vec3.add_x, Vec3.add_y, Vec3.add_z, Vec3.mul_x,
      Vec3.mul_y, Vec3.mul_z, Vec3.normSq, Vec3.dot] <;> ring

end Sums

end PlaneMoments

namespace Circle

/-! ## The fit in a plane -/

/-- The sum of the squared algebraic errors of plane points for the circle of radius `r` about `o`. -/
noncomputable def planMisfit (o : Vec2 ℝ) (r : ℝ) (qs : List (Vec2 ℝ)) : ℝ :=
  (qs.map fun q => ((q.x - o.x) ^ 2 + (q.y - o.y) ^ 2 - r ^ 2) ^ 2).sum

/-- The circle is the one in the plane that the points are nearest to, as their algebraic errors tell, and
the only one. -/
structure IsLeastSquares (c : Circle ℝ) (l : PlaneFit ℝ) (points : List (Vec3 ℝ)) : Prop where
  center_mem : c.center ∈ l.carrier
  normal_eq : c.normal = l.normal
  radius_nonneg : 0 ≤ c.radius
  misfit_lt (o : Vec2 ℝ) (r : ℝ) : 0 ≤ r → (o, r) ≠ (l.plan c.center, c.radius) →
    planMisfit (l.plan c.center) c.radius (points.map l.plan) < planMisfit o r (points.map l.plan)

section Fit

variable {l : PlaneFit ℝ} {points : List (Vec3 ℝ)}

/-- The circle about the solution of the normal equations. -/
noncomputable def fitted (l : PlaneFit ℝ) (points : List (Vec3 ℝ)) : Circle ℝ :=
  let center := (PlaneMoments.ofPoints l points).center
  ⟨l.pointAt center, l.normal, (Sphere.balanced (l.layout points) center.toVec3).radius⟩

theorem inPlane?_eq (l : PlaneFit ℝ) (points : List (Vec3 ℝ)) : inPlane? l points =
    if |(PlaneMoments.ofPoints l points).det| ≤ flatnessTolerance *
      ((PlaneMoments.ofPoints l points).size * (PlaneMoments.ofPoints l points).size)
    then none else some (fitted l points) := by
  have hradius : ∀ o : Vec2 ℝ, o.x * o.x + o.y * o.y +
      (PlaneMoments.ofPoints l points).size / (points.length : ℝ) =
        Sphere.radiusSq (l.layout points) o.toVec3 := fun o => by
    rw [Sphere.radiusSq, ← PlaneMoments.size_ofPoints, PlaneFit.layout, List.length_map]
    simp [Vec2.toVec3, Vec3.normSq, Vec3.dot]
  refine if_congr Iff.rfl rfl ?_
  rw [fitted, Sphere.balanced, ← hradius]
  rfl

theorem planMisfit_eq (o : Vec2 ℝ) (r : ℝ) : planMisfit o r (points.map l.plan) =
    (⟨o.toVec3, r⟩ : Sphere ℝ).misfit (l.layout points) := by
  rw [planMisfit, Sphere.misfit, PlaneFit.layout, List.map_map, List.map_map]
  refine congrArg List.sum (List.map_congr_left fun p _ => ?_)
  simp only [Function.comp_apply, Sphere.residual, Vec2.toVec3, Vec3.distSq, Vec3.normSq, Vec3.dot,
    Vec3.sub_x, Vec3.sub_y, Vec3.sub_z]
  ring

/-- Only points on a line would leave the center a choice. -/
theorem eq_zero_of_layout (horigin : l.origin = Vec3.centroid points)
    (hdet : (PlaneMoments.ofPoints l points).det ≠ 0) {o : Vec2 ℝ} {k : ℝ}
    (h : ∀ q ∈ l.layout points, o.toVec3.dot q + k = 0) : o = 0 := by
  have hk : (l.layout points).length * k = 0 := by
    have hsum : ((l.layout points).map fun q => o.toVec3.dot q + k).sum = 0 :=
      List.sum_eq_zero (List.forall_mem_map.mpr h)
    rwa [List.sum_map_add, ← Vec3.dot_sum, PlaneFit.sum_layout horigin, Vec3.dot_zero, zero_add,
      List.map_const', List.sum_replicate, nsmul_eq_mul] at hsum
  have hterm : ∀ q ∈ l.layout points, q * q.dot o.toVec3 = 0 := fun q hq => by
    have hcount : ((l.layout points).length : ℝ) ≠ 0 :=
      Domain.length_ne_zero (List.ne_nil_of_mem hq)
    have hdot := h q hq
    rw [(mul_eq_zero.mp hk).resolve_left hcount, add_zero, Vec3.dot_comm] at hdot
    rw [hdot, Vec3.mul_real, zero_smul]
  refine PlaneMoments.eq_zero_of_second hdet (Vec2.toVec3_injective ?_)
  rw [PlaneMoments.second_ofPoints]
  exact List.sum_eq_zero (List.forall_mem_map.mpr hterm)

theorem isLeastSquares_of_inPlane? (hframe : l.Framed) (horigin : l.origin = Vec3.centroid points)
    {c : Circle ℝ} (h : inPlane? l points = some c) : c.IsLeastSquares l points := by
  rw [inPlane?_eq, Option.ite_none_left_eq_some] at h
  obtain ⟨hdet, h⟩ := h
  cases Option.some.inj h
  have hdet := Domain.ne_zero_of_not_abs_le
    (mul_nonneg Domain.flatnessTolerance_nonneg (mul_self_nonneg _)) hdet
  set m := PlaneMoments.ofPoints l points
  have hne : l.layout points ≠ [] := by
    intro hnil
    cases List.map_eq_nil_iff.mp hnil
    exact hdet (by simp [m, PlaneMoments.det, PlaneMoments.ofPoints, PlaneMoments.zero])
  have hstationary : (Sphere.balanced (l.layout points) m.center.toVec3).IsStationary
      (l.layout points) := by
    refine .of_balanced hne (PlaneFit.sum_layout horigin) ?_
    rw [← PlaneMoments.second_ofPoints, ← PlaneMoments.third_ofPoints,
      ← PlaneMoments.second_center hdet, Vec2.toVec3_mul]
  refine ⟨hframe.pointAt_mem _, rfl, Real.sqrt_nonneg _, fun o r hr hother => ?_⟩
  have hcenter : l.plan (fitted l points).center = m.center := hframe.plan_pointAt _
  rw [hcenter] at hother ⊢
  rw [planMisfit_eq, planMisfit_eq]
  refine hstationary.misfit_lt hne (Real.sqrt_nonneg _) hr (fun heq => hother ?_) fun k hzero => ?_
  · obtain ⟨hxyz, hradius⟩ := (Sphere.mk.injEq ..).mp heq
    exact Prod.ext (Vec2.toVec3_injective hxyz) hradius
  · have hzero : (m.center - o) * (2 : ℝ) = 0 := eq_zero_of_layout horigin hdet fun q hq => by
      rw [Vec2.toVec3_mul, Vec2.toVec3_sub]
      exact hzero q hq
    have hx : (m.center.x - o.x) * 2 = 0 := congrArg Vec2.x hzero
    have hy : (m.center.y - o.y) * 2 = 0 := congrArg Vec2.y hzero
    exact congrArg Vec2.toVec3 (Vec2.ext (by linarith) (by linarith))

theorem ofPoints?_eq_none (hplane : PlaneFit.ofPoints points = .ok l)
    (h : l.kind = .coincident ∨ l.kind = .colinear) : ofPoints? points = none := by
  rw [ofPoints?, hplane]
  rcases h with h | h <;> simp only [ofPlane?, h]

theorem ofPoints?_eq_inPlane? (hplane : PlaneFit.ofPoints points = .ok l)
    (h : l.kind = .coplanar ∨ l.kind = .general) : ofPoints? points = inPlane? l points := by
  rw [ofPoints?, hplane]
  rcases h with h | h <;> simp only [ofPlane?, h]

/-- A circle is fitted in the plane of the fit. -/
theorem exists_plane_of_ofPoints? {c : Circle ℝ} (h : ofPoints? points = some c) :
    ∃ l, PlaneFit.ofPoints points = .ok l ∧ inPlane? l points = some c := by
  cases hplane : PlaneFit.ofPoints points with
  | error fault => simp [ofPoints?, hplane] at h
  | ok l =>
    refine ⟨l, rfl, ?_⟩
    cases hkind : l.kind with
    | coincident => simp [ofPoints?_eq_none hplane (.inl hkind)] at h
    | colinear => simp [ofPoints?_eq_none hplane (.inr hkind)] at h
    | coplanar => exact ofPoints?_eq_inPlane? hplane (.inl hkind) ▸ h
    | general => exact ofPoints?_eq_inPlane? hplane (.inr hkind) ▸ h

theorem planMisfit_nonneg (o : Vec2 ℝ) (r : ℝ) (qs : List (Vec2 ℝ)) : 0 ≤ planMisfit o r qs :=
  List.sum_nonneg (List.forall_mem_map.mpr fun _ _ => sq_nonneg _)

/-- A circle in the plane that all points lie on has no errors. -/
theorem IsLeastSquares.eq_of_on {c : Circle ℝ} (h : c.IsLeastSquares l points) (hframe : l.Framed)
    {o : Vec3 ℝ} (ho : o ∈ l.carrier) {r : ℝ} (hr : 0 ≤ r)
    (hon : ∀ p ∈ points, p ∈ l.carrier ∧ (p - o).norm = r) : c = ⟨o, l.normal, r⟩ := by
  have hzero : planMisfit (l.plan o) r (points.map l.plan) = 0 := by
    refine List.sum_eq_zero (List.forall_mem_map.mpr (List.forall_mem_map.mpr fun p hp => ?_))
    obtain ⟨hmem, hdist⟩ := hon p hp
    rw [← hframe.normSq_sub_eq hmem ho, ← hdist, sq (p - o).norm, Vec3.norm_mul_self, sub_self,
      zero_pow two_ne_zero]
  have hsame : (l.plan o, r) = (l.plan c.center, c.radius) := by
    by_contra hother
    exact (h.misfit_lt _ r hr hother).not_ge (hzero.trans_le (planMisfit_nonneg ..))
  obtain ⟨hplan, hradius⟩ := Prod.mk.inj hsame
  have hgap : (c.center - o).normSq = 0 := by
    rw [hframe.normSq_sub_eq h.center_mem ho, ← hplan]
    simp
  exact (mk.injEq ..).mpr ⟨sub_eq_zero.mp (Vec3.eq_zero_of_normSq hgap), h.normal_eq, hradius.symm⟩

end Fit

end Circle

/-! ## Points on a line -/

/-- Points on a line do not vary across it. -/
theorem dot_covariance_eq_zero {points : List (Vec3 ℝ)} {v : Vec3 ℝ}
    (h : ∀ p ∈ points, (p - Vec3.centroid points).dot v = 0) :
    v.dot (covariance (Vec3.centroid points) points * v) = 0 := by
  obtain rfl | hne := eq_or_ne points []
  · simp [covariance, Vec3.dot]
  have hcount : (points.length : ℝ) ≠ 0 := Domain.length_ne_zero hne
  refine (mul_eq_zero.mp ((length_mul_dot_covariance ..).trans ?_)).resolve_left hcount
  refine List.sum_eq_zero (List.forall_mem_map.mpr fun p hp => ?_)
  rw [h p hp, zero_pow two_ne_zero]

/-- Points on a line have a direction which all others perpendicular to it are at right angles with. -/
theorem exists_direction_of_collinear {points : List (Vec3 ℝ)}
    (h : Collinear ℝ {p | p ∈ points}) : ∃ d : Vec3 ℝ, ∀ v : Vec3 ℝ, v.dot d = 0 →
      ∀ p ∈ points, (p - Vec3.centroid points).dot v = 0 := by
  obtain ⟨o, d, hline⟩ := (collinear_iff_exists_forall_eq_smul_vadd _).mp h
  refine ⟨d, fun v hv p hp => ?_⟩
  have hall : ∀ p ∈ points, v.dot p = v.dot o := fun p hp => by
    obtain ⟨t, rfl⟩ := hline p hp
    rw [vadd_eq_add, Vec3.dot_add, ← Vec3.mul_real, Vec3.dot_mul, hv, zero_mul, zero_add]
  rw [Vec3.dot_comm, sub_eq_add_neg, Vec3.dot_add, Vec3.dot_neg, hall p hp,
    Vec3.dot_centroid_eq (List.ne_nil_of_mem hp) hall, add_neg_cancel]

/-- The axes of points on a line tell that there is no plane. -/
theorem PrincipalAxes.Principal.planeKind_of_collinear {points : List (Vec3 ℝ)}
    {a : PrincipalAxes ℝ} (h : a.Principal (covariance (Vec3.centroid points) points))
    (hcollinear : Collinear ℝ {p | p ∈ points}) :
    a.planeKind = .coincident ∨ a.planeKind = .colinear := by
  obtain ⟨d, hd⟩ := exists_direction_of_collinear hcollinear
  have hzero : ∀ v : Vec3 ℝ, v.dot d = 0 →
      v.dot (covariance (Vec3.centroid points) points * v) = 0 := fun v hv =>
    dot_covariance_eq_zero (hd v hv)
  unfold PrincipalAxes.planeKind
  by_cases hx : a.values.x < coincidentTolerance
  · exact .inl (if_pos hx)
  rw [if_neg hx]
  refine .inr (if_pos (not_le.mp fun hy => ?_))
  have hpos : 0 < a.values.x ∧ 0 < a.values.y := by
    rw [coincidentTolerance, Scalar.ofScientific_real] at hx
    rw [flatnessTolerance, Scalar.ofScientific_real] at hy
    norm_num at hx hy
    constructor <;> linarith
  obtain ⟨h₁, h₂, -, h₁₂, h₁₃, h₂₃⟩ := Mat3.isOrthogonal_iff_columns.mp h.orthogonal
  dsimp only at h₁ h₂ h₁₂ h₁₃ h₂₃
  -- There is a combination of the first two axes that is perpendicular to the line.
  obtain ⟨s, t, hs, ht⟩ : ∃ s t, a.first.dot d = s ∧ a.second.dot d = t := ⟨_, _, rfl, rfl⟩
  have hcombination : ∀ w : Vec3 ℝ, w.dot (a.first * t - a.second * s) =
      w.dot a.first * t - w.dot a.second * s := fun w => by
    rw [sub_eq_add_neg, Vec3.dot_add, Vec3.dot_neg, Vec3.dot_mul, Vec3.dot_mul, sub_eq_add_neg]
  have hacross : (a.first * t - a.second * s).dot d = 0 := by
    rw [Vec3.dot_comm, hcombination, Vec3.dot_comm d, Vec3.dot_comm d, hs, ht]
    ring
  have hvariance : a.values.x * t ^ 2 + a.values.y * s ^ 2 = 0 := by
    rw [← hzero _ hacross, h.dot_mul, hcombination, hcombination, hcombination, h₁, h₂, h₁₂,
      Vec3.dot_comm a.second a.first, h₁₂, Vec3.dot_comm a.third, h₁₃, Vec3.dot_comm a.third, h₂₃]
    ring
  have hfirst : a.first.dot d = 0 := by
    have hle := mul_nonneg hpos.1.le (sq_nonneg t)
    have hsq : s ^ 2 = 0 := by
      have hproduct : a.values.y * s ^ 2 = 0 :=
        le_antisymm (by linarith) (mul_nonneg hpos.2.le (sq_nonneg s))
      exact (mul_eq_zero.mp hproduct).resolve_left hpos.2.ne'
    rw [hs]
    exact pow_eq_zero_iff two_ne_zero |>.mp hsq
  exact hpos.1.ne' (h.dot_mul_first.symm.trans (hzero _ hfirst))

namespace Circle

end Circle
end Relaxation
