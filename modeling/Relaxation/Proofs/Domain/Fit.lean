import Mathlib.Data.Real.Basic
import Relaxation.Goal.Projection
import Relaxation.Proofs.Domain.Shape
import Relaxation.Proofs.Linear.Sorting

/-!
# Fits inside the domain

Of the decomposition behind the axes of a point set one thing is used: where it succeeds, its
factors are those of the matrix and the right ones are orthonormal (`Domain.Decomposition.Exact`).
The axes are then perpendicular unit vectors, so that lines, planes and circles get their directions
however degenerate the points are. A determinant is divided by where it exceeds a bound, and the
bounds are never negative.
-/

namespace Relaxation.Domain

open Matrix

noncomputable section

/-! ## Axes -/

/-- A way to decompose matrices of order three, which may give up. -/
abbrev Decomposition := DenseMatrix 3 3 ℝ → Checked ℝ (Svd 3 3 ℝ)

/-- Where it does not give up, the factors are those of the matrix, and the right ones are
orthonormal. -/
def Decomposition.Exact (decompose : Decomposition) : Prop :=
  ∀ a d, decompose a = .ok d → d.recompose = a ∧ d.v.toMatrixᵀ * d.v.toMatrix = 1

/-- The decomposition of the library is exact where it succeeds. -/
theorem exact_decompose : Decomposition.Exact Svd.decompose := by
  intro a d hd
  obtain ⟨z, hfactors, hsettled, rfl⟩ := Svd.exists_factors_of_decompose hd
  refine ⟨DenseMatrix.toMatrix_injective ?_, hfactors.right_orthonormal⟩
  rw [Svd.toMatrix_recompose, ← Svd.bidiagonal_of_settled hsettled, hfactors.product]

/-- The first two axes span a plane. -/
structure Spanning (a : PrincipalAxes ℝ) : Prop where
  first_ne_zero : a.first ≠ 0
  second_ne_zero : a.second ≠ 0
  perpendicular : a.first.dot a.second = 0

/-- The columns of an orthonormal matrix are perpendicular unit vectors. -/
theorem dot_columnVec {v : DenseMatrix 3 3 ℝ} (h : v.toMatrixᵀ * v.toMatrix = 1) (i j : Fin 3) :
    (v.columnVec i).dot (v.columnVec j) = if i = j then 1 else 0 := by
  have hentry := congrFun₂ h i j
  rw [Matrix.mul_apply, Fin.sum_univ_three, Matrix.one_apply] at hentry
  exact hentry

theorem columnVec_ne_zero {v : DenseMatrix 3 3 ℝ} (h : v.toMatrixᵀ * v.toMatrix = 1) (i : Fin 3) :
    v.columnVec i ≠ 0 := by
  intro hzero
  have hunit := dot_columnVec h i i
  rw [hzero, Vec3.dot_zero, if_pos rfl] at hunit
  exact zero_ne_one hunit

theorem columnVec_permuteColumns (v : DenseMatrix 3 3 ℝ) (order : Vector (Fin 3) 3) (j : Fin 3) :
    (v.permuteColumns order).columnVec j = v.columnVec order[j] := by
  simp only [DenseMatrix.columnVec, DenseMatrix.permuteColumns, DenseMatrix.ofFn_apply]

/-- Sorting the values puts two different columns first. -/
theorem exists_ofSvd_eq (c : Vec3 ℝ) (d : Svd 3 3 ℝ) : ∃ i j, i ≠ j ∧
    (PrincipalAxes.ofSvd c d).first = d.v.columnVec i ∧
    (PrincipalAxes.ofSvd c d).second = d.v.columnVec j := by
  refine ⟨_, _, ?_, columnVec_permuteColumns .., columnVec_permuteColumns ..⟩
  exact fun h => Nat.zero_ne_one ((Svd.nodup_descending d.w).getElem_inj_iff.mp h)

/-- The axes are columns of the right factor, in another order. -/
theorem spanning_ofSvd (c : Vec3 ℝ) {d : Svd 3 3 ℝ} (h : d.v.toMatrixᵀ * d.v.toMatrix = 1) :
    Spanning (PrincipalAxes.ofSvd c d) := by
  obtain ⟨i, j, hij, hfirst, hsecond⟩ := exists_ofSvd_eq c d
  constructor
  · exact hfirst ▸ columnVec_ne_zero h i
  · exact hsecond ▸ columnVec_ne_zero h j
  · rw [hfirst, hsecond, dot_columnVec h, if_neg hij]

/-- A matrix divided entry by entry. -/
def divMat? (a : Mat3 ℝ) (t : ℝ) : Option (Mat3 ℝ) := do
  return ⟨← divVec? a.c1 t, ← divVec? a.c2 t, ← divVec? a.c3 t⟩

theorem divMat?_eq_some {t : ℝ} (h : t ≠ 0) (a : Mat3 ℝ) : divMat? a t = some (a / t) := by
  simp only [divMat?, divVec?_eq_some h]
  rfl

/-- The mean of the products of the offsets from a point, zero if there are no points. -/
def covariance? (c : Vec3 ℝ) (points : List (Vec3 ℝ)) : Option (Mat3 ℝ) :=
  let total := points.foldl (fun acc p => acc + Mat3.outer (p - c) (p - c)) 0
  if points.isEmpty then some total else divMat? total points.length

theorem covariance?_eq_some (c : Vec3 ℝ) (points : List (Vec3 ℝ)) :
    covariance? c points = some (covariance c points) := by
  unfold covariance? covariance
  dsimp only
  split
  case isTrue => rfl
  case isFalse h => exact divMat?_eq_some (length_ne_zero fun hnil => h (by rw [hnil]; rfl)) _

section Decomposition

variable (decompose : Decomposition) (points : List (Vec3 ℝ))

/-- The axes of a point set, if the decomposition does not give up. -/
def axes : Option (PrincipalAxes ℝ) :=
  let c := Vec3.centroid points
  (decompose (covariance c points).toDense).toOption.map (PrincipalAxes.ofSvd c)

/-- The axes once more, with the centroid and the covariance as quotients. They have a value also
where the decomposition gives up. -/
def axes? : Option (Option (PrincipalAxes ℝ)) := do
  let c ← centroid? points
  return (decompose (← covariance? c points).toDense).toOption.map (PrincipalAxes.ofSvd c)

theorem axes?_eq_some : axes? decompose points = some (axes decompose points) := by
  simp only [axes?, centroid?_eq_some, covariance?_eq_some, Option.bind_eq_bind, Option.bind_some]
  rfl

theorem axes_decompose : axes Svd.decompose points = (PrincipalAxes.ofPoints points).toOption := by
  unfold axes PrincipalAxes.ofPoints
  dsimp only
  cases Svd.decompose (covariance (Vec3.centroid points) points).toDense with
  | error fault => rfl
  | ok d => rfl

variable {decompose points}

/-- Axes that there are span a plane. -/
theorem spanning_of_mem_axes (h : decompose.Exact) {a : PrincipalAxes ℝ}
    (ha : a ∈ axes decompose points) : Spanning a := by
  unfold axes at ha
  dsimp only at ha
  cases hd : decompose (covariance (Vec3.centroid points) points).toDense with
  | error fault =>
    rw [hd] at ha
    exact absurd ha (Option.not_mem_none a)
  | ok d =>
    rw [hd] at ha
    cases Option.some.inj ha
    exact spanning_ofSvd _ (h _ d hd).2

end Decomposition

/-! ## Lines, planes and circles -/

/-- The line along the first axis, along the first coordinate axis for coincident points. -/
def lineOf? (a : PrincipalAxes ℝ) : Option (LineFit ℝ) := do
  let direction ←
    match a.lineKind with
    | .coincident => some Vec3.xAxis
    | .colinear | .scattered => normalize? a.first
  return ⟨⟨a.centroid, direction⟩, a.lineKind⟩

theorem lineOf?_eq_some {a : PrincipalAxes ℝ} (h : Spanning a) :
    lineOf? a = some (LineFit.ofAxes a) := by
  unfold lineOf? LineFit.ofAxes
  rw [normalize?_eq_some h.first_ne_zero]
  cases a.lineKind <;> rfl

/-- A direction in the plane of the axes and the normal of the plane. Points in one line leave the
plane open, and a normal is taken across the line. -/
def planeFrame? (a : PrincipalAxes ℝ) : Option (Vec3 ℝ × Vec3 ℝ) :=
  match a.planeKind with
  | .coincident => some (Vec3.xAxis, Vec3.zAxis)
  | .colinear => do
    let x ← normalize? a.first
    return (x, ← normalize? x.perpendicular)
  | .coplanar | .general => do
    let x ← normalize? a.first
    return (x, ← normalize? (x.cross a.second))

/-- The second axis stays out of the line of the first one. -/
theorem cross_second_ne_zero {a : PrincipalAxes ℝ} (h : Spanning a) :
    a.first.normalize.cross a.second ≠ 0 := by
  refine Vec3.cross_ne_zero (Vec3.normalize_ne_zero h.first_ne_zero) h.second_ne_zero ?_
  rw [Vec3.dot_comm, Vec3.normalize, Vec3.dot_mul, Vec3.dot_comm, h.perpendicular, zero_mul]

theorem planeFrame?_eq_some {a : PrincipalAxes ℝ} (h : Spanning a) :
    planeFrame? a = some a.planeFrame := by
  unfold planeFrame? PrincipalAxes.planeFrame
  rw [normalize?_eq_some h.first_ne_zero]
  cases a.planeKind with
  | coincident => rfl
  | colinear =>
    have hperpendicular := Vec3.perpendicular_ne_zero (Vec3.normalize_ne_zero h.first_ne_zero)
    simp only [Option.bind_eq_bind, Option.bind_some, normalize?_eq_some hperpendicular]
    rfl
  | coplanar | general =>
    simp only [Option.bind_eq_bind, Option.bind_some,
      normalize?_eq_some (cross_second_ne_zero h)]
    rfl

theorem planeFrame_normal_ne_zero {a : PrincipalAxes ℝ} (h : Spanning a) : a.planeFrame.2 ≠ 0 := by
  unfold PrincipalAxes.planeFrame
  cases a.planeKind with
  | coincident => exact fun hzero => one_ne_zero (congrArg Vec3.z hzero)
  | colinear =>
    exact Vec3.normalize_ne_zero
      (Vec3.perpendicular_ne_zero (Vec3.normalize_ne_zero h.first_ne_zero))
  | coplanar | general => exact Vec3.normalize_ne_zero (cross_second_ne_zero h)

/-- The plane of the axes with a frame in it. -/
def planeOf? (a : PrincipalAxes ℝ) : Option (PlaneFit ℝ) := do
  let (x, normal) ← planeFrame? a
  return ⟨⟨a.centroid, normal⟩, x, normal.cross x, a.planeKind⟩

theorem planeOf?_eq_some {a : PrincipalAxes ℝ} (h : Spanning a) :
    planeOf? a = some (PlaneFit.ofAxes a) := by
  rw [planeOf?, planeFrame?_eq_some h]
  rfl

/-- The second moments of point coordinates along two axes are not negative. -/
theorem squareMoments_nonneg (plane : PlaneFit ℝ) (points : List (Vec3 ℝ)) :
    0 ≤ (PlaneMoments.ofPoints plane points).uu ∧ 0 ≤ (PlaneMoments.ofPoints plane points).vv := by
  refine List.foldlRecOn (motive := fun m : PlaneMoments ℝ => 0 ≤ m.uu ∧ 0 ≤ m.vv) points _
    ⟨le_rfl, le_rfl⟩ fun m hm p _ => ?_
  exact ⟨add_nonneg hm.1 (mul_self_nonneg _), add_nonneg hm.2 (mul_self_nonneg _)⟩

theorem flatnessTolerance_nonneg : 0 ≤ (flatnessTolerance : ℝ) := by
  rw [flatnessTolerance, Scalar.ofScientific_real]
  norm_num

/-- What exceeds a bound in magnitude is a divisor. -/
theorem ne_zero_of_not_abs_le {x bound : ℝ} (hbound : 0 ≤ bound) (h : ¬Scalar.abs x ≤ bound) :
    x ≠ 0 :=
  abs_pos.mp (hbound.trans_lt (not_le.mp h))

/-- The circle of the plane that fits best, from the moments in the plane, if they are not flat. -/
def circleIn? (plane : PlaneFit ℝ) (points : List (Vec3 ℝ)) : Option (Option (Circle ℝ)) :=
  let m := PlaneMoments.ofPoints plane points
  let det := m.uu * m.vv - m.uv * m.uv
  let size := m.uu + m.vv
  if Scalar.abs det ≤ flatnessTolerance * (size * size) then some none
  else do
    let bu := 0.5 * (m.uuu + m.uvv)
    let bv := 0.5 * (m.vvv + m.vuu)
    let uc ← div? (bu * m.vv - m.uv * bv) det
    let vc ← div? (m.uu * bv - m.uv * bu) det
    let radius ← sqrt? (uc * uc + vc * vc + (← div? (m.uu + m.vv) points.length))
    return some ⟨plane.origin + plane.xAxis * uc + plane.yAxis * vc, plane.normal, radius⟩

/-- Without points the determinant vanishes, so their number is no divisor then. -/
theorem circleIn?_eq_some (plane : PlaneFit ℝ) (points : List (Vec3 ℝ)) :
    circleIn? plane points = some (Circle.inPlane? plane points) := by
  obtain ⟨huu, hvv⟩ := squareMoments_nonneg plane points
  have hpoints : points = [] → (PlaneMoments.ofPoints plane points).uu = 0 ∧
      (PlaneMoments.ofPoints plane points).uv = 0 := by
    rintro rfl
    exact ⟨rfl, rfl⟩
  unfold circleIn? Circle.inPlane?
  generalize PlaneMoments.ofPoints plane points = m at *
  dsimp only
  split
  case isTrue => rfl
  case isFalse h =>
    have hdet : m.uu * m.vv - m.uv * m.uv ≠ 0 :=
      ne_zero_of_not_abs_le (mul_nonneg flatnessTolerance_nonneg (mul_self_nonneg _)) h
    have hne : points ≠ [] := by
      intro hnil
      obtain ⟨huu, huv⟩ := hpoints hnil
      rw [huu, huv, zero_mul, zero_mul, sub_zero] at hdet
      exact hdet rfl
    have hmean : 0 ≤ (m.uu + m.vv) / (points.length : ℝ) :=
      div_nonneg (add_nonneg huu hvv) (Nat.cast_nonneg _)
    simp only [div?_eq_some hdet, div?_eq_some (length_ne_zero hne), Option.bind_eq_bind,
      Option.bind_some]
    rw [sqrt?_eq_some
      (add_nonneg (add_nonneg (mul_self_nonneg _) (mul_self_nonneg _)) hmean)]
    rfl

/-- The circle of the plane of the points, if they have one. -/
def circleOf? (points : List (Vec3 ℝ)) (plane : PlaneFit ℝ) : Option (Option (Circle ℝ)) :=
  match plane.kind with
  | .coincident | .colinear => some none
  | .coplanar | .general => circleIn? plane points

theorem circleOf?_eq_some (points : List (Vec3 ℝ)) (plane : PlaneFit ℝ) :
    circleOf? points plane = some (Circle.ofPlane? points plane) := by
  unfold circleOf? Circle.ofPlane?
  cases plane.kind with
  | coincident | colinear => rfl
  | coplanar | general => exact circleIn?_eq_some plane points

/-- A circle that is found has the normal of its plane. -/
theorem normal_of_mem_ofPlane {points : List (Vec3 ℝ)} {plane : PlaneFit ℝ} {c : Circle ℝ}
    (h : c ∈ Circle.ofPlane? points plane) : c.normal = plane.normal := by
  have hin : ∀ c ∈ Circle.inPlane? plane points, c.normal = plane.normal := by
    intro c hc
    unfold Circle.inPlane? at hc
    dsimp only at hc
    split at hc
    · cases hc
    · cases Option.some.inj hc
      rfl
  unfold Circle.ofPlane? at h
  split at h
  · cases h
  · cases h
  · exact hin c h
  · exact hin c h

section Decomposition

variable (decompose : Decomposition) (points : List (Vec3 ℝ))

/-- The line of a point set by the given decomposition. -/
def lineFit : Option (LineFit ℝ) := (axes decompose points).map LineFit.ofAxes

/-- The plane of a point set by the given decomposition. -/
def planeFit : Option (PlaneFit ℝ) := (axes decompose points).map PlaneFit.ofAxes

/-- The circle of a point set by the given decomposition. -/
def circleFit : Option (Circle ℝ) := (planeFit decompose points).bind (Circle.ofPlane? points)

/-- With the decomposition of the library it is the line that projections use. -/
theorem lineFit_decompose : lineFit Svd.decompose points = (LineFit.ofPoints points).toOption := by
  rw [lineFit, axes_decompose, LineFit.ofPoints]
  cases PrincipalAxes.ofPoints points with
  | error fault => rfl
  | ok a => rfl

theorem planeFit_decompose :
    planeFit Svd.decompose points = (PlaneFit.ofPoints points).toOption := by
  rw [planeFit, axes_decompose, PlaneFit.ofPoints]
  cases PrincipalAxes.ofPoints points with
  | error fault => rfl
  | ok a => rfl

theorem circleFit_decompose : circleFit Svd.decompose points = Circle.ofPoints? points := by
  rw [circleFit, planeFit_decompose, Circle.ofPoints?]
  cases PlaneFit.ofPoints points with
  | error fault => rfl
  | ok plane => rfl

/-- The line, which there is if the axes are. -/
def lineFit? : Option (Option (LineFit ℝ)) := do (← axes? decompose points).mapM lineOf?

/-- The plane, which there is if the axes are. -/
def planeFit? : Option (Option (PlaneFit ℝ)) := do (← axes? decompose points).mapM planeOf?

/-- The circle, which there is if a plane is and its points are not in one line. -/
def circleFit? : Option (Option (Circle ℝ)) := do
  match ← planeFit? decompose points with
  | some plane => circleOf? points plane
  | none => return none

variable {decompose}

theorem lineFit?_eq_some (h : decompose.Exact) :
    lineFit? decompose points = some (lineFit decompose points) := by
  rw [lineFit?, axes?_eq_some, Option.bind_eq_bind, Option.bind_some]
  exact option_mapM_eq_some_map fun a ha => lineOf?_eq_some (spanning_of_mem_axes h ha)

theorem planeFit?_eq_some (h : decompose.Exact) :
    planeFit? decompose points = some (planeFit decompose points) := by
  rw [planeFit?, axes?_eq_some, Option.bind_eq_bind, Option.bind_some]
  exact option_mapM_eq_some_map fun a ha => planeOf?_eq_some (spanning_of_mem_axes h ha)

theorem circleFit?_eq_some (h : decompose.Exact) :
    circleFit? decompose points = some (circleFit decompose points) := by
  rw [circleFit?, planeFit?_eq_some points h, Option.bind_eq_bind, Option.bind_some, circleFit]
  cases planeFit decompose points with
  | none => rfl
  | some plane => exact circleOf?_eq_some points plane

theorem normal_ne_zero_of_mem_circleFit (h : decompose.Exact) {c : Circle ℝ}
    (hc : c ∈ circleFit decompose points) : c.normal ≠ 0 := by
  obtain ⟨plane, hplane, hc⟩ := Option.bind_eq_some_iff.mp hc
  obtain ⟨a, ha, rfl⟩ := Option.map_eq_some_iff.mp hplane
  rw [normal_of_mem_ofPlane hc]
  exact planeFrame_normal_ne_zero (spanning_of_mem_axes h ha)

end Decomposition

/-! ## Spheres -/

/-- The solution of three linear equations by determinants. -/
def solve? (e : CenterSystem ℝ) : Option (Vec3 ℝ) :=
  let delta := e.det
  do
    return ⟨← div? (e.d * (e.f * e.l - e.g * e.g) - e.h * (e.b * e.l - e.c * e.g) +
        e.m * (e.b * e.g - e.c * e.f)) delta,
      ← div? (e.a * (e.h * e.l - e.m * e.g) - e.b * (e.d * e.l - e.m * e.c) +
        e.c * (e.d * e.g - e.h * e.c)) delta,
      ← div? (e.a * (e.f * e.m - e.h * e.g) - e.b * (e.b * e.m - e.d * e.g) +
        e.c * (e.b * e.h - e.d * e.f)) delta⟩

theorem solve?_eq_some {e : CenterSystem ℝ} (h : e.det ≠ 0) : solve? e = some e.solve := by
  simp only [solve?, div?_eq_some h, Option.bind_eq_bind, Option.bind_some]
  rfl

theorem magnitude_nonneg (e : CenterSystem ℝ) : 0 ≤ e.magnitude := by
  have hsize : 0 ≤ Scalar.abs e.a + Scalar.abs e.f + Scalar.abs e.l :=
    add_nonneg (add_nonneg (abs_nonneg _) (abs_nonneg _)) (abs_nonneg _)
  exact mul_nonneg (mul_nonneg hsize hsize) hsize

theorem sphereTolerance_nonneg : 0 ≤ (sphereTolerance : ℝ) := by
  rw [sphereTolerance, Scalar.ofScientific_real]
  norm_num

/-- The sphere that fits best, of four points or more that are not in one plane. -/
def sphereFit? (points : List (Vec3 ℝ)) : Option (Option (Sphere ℝ)) :=
  if points.length < 4 then some none
  else do
    let c ← centroid? points
    let n : ℝ := (points.length : ℝ)
    let s := SpaceMoments.about c points
    let e := CenterSystem.ofMoments n s
    if Scalar.abs e.det ≤ sphereTolerance * e.magnitude then return none
    else
      let o ← solve? e
      let size := s.xx + s.yy + s.zz
      let mean ← div? (size - 2.0 * (o.x * s.x + o.y * s.y + o.z * s.z)) n
      let radiusSq := o.x * o.x + o.y * o.y + o.z * o.z + mean
      if radiusSq < 0 then return none else return some ⟨c + o, ← sqrt? radiusSq⟩

/-- A square of the radius that is negative is noticed before its root is taken. -/
theorem sphereFit?_eq_some (points : List (Vec3 ℝ)) :
    sphereFit? points = some (Sphere.ofPoints? points) := by
  unfold sphereFit? Sphere.ofPoints?
  split
  case isTrue => rfl
  case isFalse hlen =>
    have hne : points ≠ [] := by
      rintro rfl
      exact hlen (by decide)
    rw [centroid?_eq_some, Option.bind_eq_bind, Option.bind_some]
    dsimp only
    generalize SpaceMoments.about (Vec3.centroid points) points = s
    generalize CenterSystem.ofMoments (points.length : ℝ) s = e
    split
    case isTrue => rfl
    case isFalse hdet =>
      have hdet : e.det ≠ 0 :=
        ne_zero_of_not_abs_le (mul_nonneg sphereTolerance_nonneg (magnitude_nonneg e)) hdet
      simp only [solve?_eq_some hdet, div?_eq_some (length_ne_zero hne), Option.bind_eq_bind,
        Option.bind_some]
      split
      case isTrue => rfl
      case isFalse hradius =>
        rw [sqrt?_eq_some (not_lt.mp hradius)]
        rfl

/-! ## Projections -/

/-- The displacements onto a fitted shape, none where there is no fit. -/
def ontoFit? {β : Type} (closestPoint : β → Vec3 ℝ → Option (Vec3 ℝ)) (fit : Option (Option β))
    (n : Nat) (ps : List (Vec3 ℝ)) : Option (Response ℝ) := do
  match ← fit with
  | some shape => project? (closestPoint shape) ps
  | none => return Response.idle n

theorem ontoFit?_eq_some {β : Type} {closestPoint : β → Vec3 ℝ → Option (Vec3 ℝ)}
    {closestPoint' : β → Vec3 ℝ → Vec3 ℝ} {fit : Option (Option β)} {fit' : Option β}
    (hfit : fit = some fit')
    (h : ∀ shape ∈ fit', ∀ p, closestPoint shape p = some (closestPoint' shape p)) (n : Nat)
    (ps : List (Vec3 ℝ)) :
    ontoFit? closestPoint fit n ps = some (Projection.ontoFit closestPoint' fit' n ps) := by
  rw [ontoFit?, hfit, Option.bind_eq_bind, Option.bind_some]
  cases fit' with
  | none => rfl
  | some shape => exact project?_eq_some (h shape rfl) ps

end

end Relaxation.Domain
