import Mathlib.Data.Real.Basic
import Relaxation.Goal.ShapeMatching
import Relaxation.Proofs.Domain.Fit
import Relaxation.Proofs.Linear.Svd3

/-!
# Shape matching inside the domain

Every half-angle of a Jacobi or Givens rotation has a cosine and a sine that do not vanish together,
so no rotation divides by zero, whatever the matrix (`Domain.svd3?_eq_some`). The size of the shape
is a divisor only where it passes for one.
-/

namespace Relaxation.Domain

noncomputable section

/-! ## Jacobi rotations -/

/-- The reciprocal of the root of a positive number. -/
def recipSqrt? (a : ℝ) : Option ℝ := do recip? (← sqrt? a)

theorem recipSqrt?_eq_some {a : ℝ} (h : 0 < a) :
    recipSqrt? a = some (Scalar.recip (Scalar.sqrt a)) := by
  rw [recipSqrt?, sqrt?_eq_some h.le, Option.bind_eq_bind, Option.bind_some]
  exact recip?_eq_some (Real.sqrt_pos.mpr h).ne'

/-- The cosine and sine of half the angle that nearly cancels an entry, those of an eighth of a turn
where the entry is too large for the approximation. -/
def approximateGivens? (a11 a12 a22 : ℝ) : Option (ℝ × ℝ) :=
  let ch := 2.0 * (a11 - a22)
  let sh := a12
  if Symmetric3.fourGammaSquared * sh * sh < ch * ch then do
    let w ← recipSqrt? (ch * ch + sh * sh)
    return (w * ch, w * sh)
  else some (Symmetric3.cosPiOverEight, Symmetric3.sinPiOverEight)

/-- The legs do not vanish together where they are scaled to a unit vector. -/
theorem approximateGivens?_eq_some (a11 a12 a22 : ℝ) :
    approximateGivens? a11 a12 a22 = some (Symmetric3.approximateGivens a11 a12 a22) := by
  unfold approximateGivens? Symmetric3.approximateGivens
  dsimp only
  split
  case isTrue h =>
    rw [recipSqrt?_eq_some (Symmetric3.lengthSq_pos h)]
    rfl
  case isFalse => rfl

/-- The matrix in axes turned by twice the half-angle, which need not be scaled. -/
def conjugate? (ch sh : ℝ) (o : Symmetric3 ℝ) : Option (Symmetric3 ℝ) :=
  let scale := ch * ch + sh * sh
  do
    let a ← div? (ch * ch - sh * sh) scale
    let b ← div? (2.0 * sh * ch) scale
    return {
      s11 := a * (a * o.s11 + b * o.s21) + b * (a * o.s21 + b * o.s22)
      s21 := a * (-b * o.s11 + a * o.s21) + b * (-b * o.s21 + a * o.s22)
      s22 := -b * (-b * o.s11 + a * o.s21) + a * (-b * o.s21 + a * o.s22)
      s31 := a * o.s31 + b * o.s32
      s32 := -b * o.s31 + a * o.s32
      s33 := o.s33 }

theorem conjugate?_eq_some {ch sh : ℝ} (h : 0 < ch * ch + sh * sh) (o : Symmetric3 ℝ) :
    conjugate? ch sh o = some (o.conjugate ch sh) := by
  simp only [conjugate?, div?_eq_some h.ne', Option.bind_eq_bind, Option.bind_some]
  rfl

/-- One rotation, which cancels the entry next to the diagonal and hands the axes on. -/
def step? (axis : Axis) (j : Jacobi ℝ) : Option (Jacobi ℝ) := do
  let (ch, sh) ← approximateGivens? j.matrix.s11 j.matrix.s21 j.matrix.s22
  return ⟨(← conjugate? ch sh j.matrix).relabel, j.rotation.turn axis ch sh⟩

theorem step?_eq_some (axis : Axis) (j : Jacobi ℝ) : step? axis j = some (j.step axis) := by
  rcases hgivens : Symmetric3.approximateGivens j.matrix.s11 j.matrix.s21 j.matrix.s22
    with ⟨ch, sh⟩
  simp only [step?, Jacobi.step, approximateGivens?_eq_some, hgivens, Option.bind_eq_bind,
    Option.bind_some, conjugate?_eq_some (Symmetric3.approximateGivens_pos hgivens)]
  rfl

/-- A rotation about each of the axes. -/
def sweep? (j : Jacobi ℝ) : Option (Jacobi ℝ) := do
  let j ← step? .z j
  let j ← step? .x j
  step? .y j

theorem sweep?_eq_some (j : Jacobi ℝ) : sweep? j = some j.sweep := by
  simp only [sweep?, step?_eq_some, Option.bind_eq_bind, Option.bind_some]
  rfl

/-- The sweeps in a row, from the matrix and the rotation that does nothing. -/
def diagonalize? (s : Symmetric3 ℝ) : Option (Jacobi ℝ) :=
  Nat.repeat (·.bind sweep?) Jacobi.sweeps (some ⟨s, Quaternion.identity⟩)

/-- Every sweep has a value, so any number of them has. -/
theorem repeat_sweep?_eq_some (j : Jacobi ℝ) (n : ℕ) :
    Nat.repeat (·.bind sweep?) n (some j) = some (Nat.repeat Jacobi.sweep n j) := by
  induction n with
  | zero => rfl
  | succ n ih => rw [Nat.repeat, ih, Option.bind_some, sweep?_eq_some, Nat.repeat]

theorem diagonalize?_eq_some (s : Symmetric3 ℝ) :
    diagonalize? s = some (Jacobi.diagonalize s) :=
  repeat_sweep?_eq_some _ _

/-- The length of a quaternion, its squares summed in two pairs. -/
def lengthOf? (q : Quaternion ℝ) : Option ℝ :=
  sqrt? ((q.i * q.i + q.k * q.k) + (q.j * q.j + q.w * q.w))

/-- A quaternion divided by its length. -/
def unitQuaternion? (q : Quaternion ℝ) : Option (Quaternion ℝ) := do
  let n ← lengthOf? q
  return ⟨← div? q.i n, ← div? q.j n, ← div? q.k n, ← div? q.w n⟩

theorem unitQuaternion?_eq_some {q : Quaternion ℝ} (h : 0 < q.normSq) :
    unitQuaternion? q = some q.normalize := by
  have hlength : lengthOf? q = some q.norm := sqrt?_eq_some q.normSq_nonneg
  have hnorm : q.norm ≠ 0 := (Real.sqrt_pos.mpr h).ne'
  simp only [unitQuaternion?, hlength, div?_eq_some hnorm, Option.bind_eq_bind, Option.bind_some]
  rfl

/-- The rotation onto the axes of the product of the transpose and the matrix. -/
def rightRotation? (a : Mat3 ℝ) : Option (Mat3 ℝ) := do
  let j ← diagonalize? (Symmetric3.ofMat3 (a.transpose * a))
  return (← unitQuaternion? j.rotation).toMat3

/-- The rotations keep the quaternion from vanishing. -/
theorem rightRotation?_eq_some (a : Mat3 ℝ) :
    rightRotation? a = some (Svd3.rightRotation a) := by
  rw [rightRotation?, diagonalize?_eq_some, Option.bind_eq_bind, Option.bind_some,
    unitQuaternion?_eq_some (Jacobi.normSq_diagonalize_pos _)]
  rfl

/-! ## Givens rotations -/

/-- The cosine and sine of a rotation that cancels the second of two entries, if they are not too
small. -/
def givens? (a1 a2 : ℝ) : Option (ℝ × ℝ) := do
  let rho ← sqrt? (a1 * a1 + a2 * a2)
  let sh := if Svd3.pivotTolerance < rho then a2 else 0
  let ch := Scalar.abs a1 + Scalar.max rho Svd3.pivotTolerance
  let (sh, ch) := if a1 < 0 then (ch, sh) else (sh, ch)
  let w ← recipSqrt? (ch * ch + sh * sh)
  let ch := ch * w
  let sh := sh * w
  return (1 - 2.0 * sh * sh, 2.0 * ch * sh)

/-- The tolerance stands in for a length that vanishes, and keeps the divisor positive. -/
theorem givens?_eq_some (a1 a2 : ℝ) : givens? a1 a2 = some (Svd3.givens a1 a2) := by
  have hrho : sqrt? (a1 * a1 + a2 * a2) = some (Svd3.pivotLength a1 a2) :=
    sqrt?_eq_some (add_nonneg (mul_self_nonneg a1) (mul_self_nonneg a2))
  rcases hhalf : Svd3.halfGivens a1 a2 with ⟨ch, sh⟩
  have hpos := Svd3.halfGivens_pos hhalf
  unfold Svd3.halfGivens at hhalf
  dsimp only at hhalf
  simp only [givens?, hrho, Option.bind_eq_bind, Option.bind_some, Svd3.givens, Scalar.abs_real,
    Scalar.max_real]
  split at hhalf
  case isTrue hneg =>
    obtain ⟨rfl, rfl⟩ := Prod.mk.inj hhalf
    simp only [if_pos hneg]
    rw [recipSqrt?_eq_some hpos]
    rfl
  case isFalse hneg =>
    obtain ⟨rfl, rfl⟩ := Prod.mk.inj hhalf
    simp only [if_neg hneg]
    rw [recipSqrt?_eq_some hpos]
    rfl

/-- The rotation and the triangular matrix of a matrix, from one rotation for each entry below the
diagonal. -/
def qr? (b : Mat3 ℝ) : Option (Mat3 ℝ × Mat3 ℝ) := do
  let (c, s) ← givens? b.c1.x b.c1.y
  let g1 := Mat3.ofRows ⟨c, s, 0⟩ ⟨-s, c, 0⟩ ⟨0, 0, 1⟩
  let r := g1 * b
  let (c, s) ← givens? r.c1.x r.c1.z
  let g2 := Mat3.ofRows ⟨c, 0, s⟩ ⟨0, 1, 0⟩ ⟨-s, 0, c⟩
  let r := g2 * r
  let (c, s) ← givens? r.c2.y r.c2.z
  let g3 := Mat3.ofRows ⟨1, 0, 0⟩ ⟨0, c, s⟩ ⟨0, -s, c⟩
  let r := g3 * r
  return (g1.transpose * g2.transpose * g3.transpose, r)

theorem qr?_eq_some (b : Mat3 ℝ) : qr? b = some (Svd3.qr b) := by
  simp only [qr?, givens?_eq_some, Option.bind_eq_bind, Option.bind_some]
  rfl

/-- The decomposition of a matrix of order three. -/
def svd3? (a : Mat3 ℝ) : Option (Svd3 ℝ) := do
  let v ← rightRotation? a
  let (b, v) := Svd3.sortColumns (a * v) v
  let (u, r) ← qr? b
  return ⟨u, r.diag, v⟩

/-- The decomposition has a value whatever the matrix, the zero matrix included. -/
theorem svd3?_eq_some (a : Mat3 ℝ) : svd3? a = some (Svd3.decompose a) := by
  simp only [svd3?, rightRotation?_eq_some, qr?_eq_some, Option.bind_eq_bind, Option.bind_some]
  rfl

/-! ## Placements -/

/-- The placement read from a decomposition. Its scale is divided by the size of the shape. -/
def ofSvd? (d : Svd3 ℝ) (shape : TargetShape ℝ) (allowScaling : Bool) (center : Vec3 ℝ) :
    Option (Placement ℝ) :=
  let (u, s) : Mat3 ℝ × Vec3 ℝ :=
    if d.s.z < 0 then (Placement.flipThird d.u, { d.s with z := -d.s.z }) else (d.u, d.s)
  let rotation := u * d.v.transpose
  let mirrored := rotation.det < 0 && !shape.planar
  let rotation := if mirrored then Placement.flipThird u * d.v.transpose else rotation
  let sense : ℝ := if mirrored then -1 else 1
  let scale := if allowScaling then div? (s.x + s.y + sense * s.z) shape.sizeSq else some 1
  scale.map fun scale => ⟨rotation, scale, center⟩

theorem ofSvd?_eq_some (d : Svd3 ℝ) {shape : TargetShape ℝ} (h : shape.sizeSq ≠ 0)
    (allowScaling : Bool) (center : Vec3 ℝ) :
    ofSvd? d shape allowScaling center = some (Placement.ofSvd d shape allowScaling center) := by
  unfold ofSvd? Placement.ofSvd
  simp only [div?_eq_some h]
  cases allowScaling <;> rfl

/-- The placement of a shape on points. A shape without size goes to their centroid as it is. -/
def placement? (shape : TargetShape ℝ) (allowScaling : Bool) (ps : List (Vec3 ℝ)) :
    Option (Placement ℝ) := do
  let center ← centroid? ps
  if shape.sizeSq < 1e-24 then return ⟨1, 1, center⟩
  else
    let covariance := (ps.zip shape.points).foldl
      (fun acc (p, t) => acc + Mat3.outer (p - center) t) (0 : Mat3 ℝ)
    ofSvd? (← svd3? covariance) shape allowScaling center

/-- A size that passes for one is no zero. -/
theorem placement?_eq_some (shape : TargetShape ℝ) (allowScaling : Bool) (ps : List (Vec3 ℝ)) :
    placement? shape allowScaling ps = some (Placement.ofPoints shape allowScaling ps) := by
  simp only [placement?, centroid?_eq_some, svd3?_eq_some, Option.bind_eq_bind, Option.bind_some,
    Placement.ofPoints]
  split
  case isTrue => rfl
  case isFalse h =>
    have hsize : shape.sizeSq ≠ 0 := fun hzero => h (by rw [hzero]; norm_num)
    exact ofSvd?_eq_some _ hsize ..

/-- Each node goes to the image of its point of the shape. -/
def respondMatching? (shape : TargetShape ℝ) (allowScaling : Bool) (ps : List (Vec3 ℝ)) :
    Option (Response ℝ) := do
  let placement ← placement? shape allowScaling ps
  return (ps.zip shape.points).map fun (p, t) => some (placement.apply t - p)

theorem respondMatching?_eq_some (shape : TargetShape ℝ) (allowScaling : Bool)
    (ps : List (Vec3 ℝ)) :
    respondMatching? shape allowScaling ps = some (shape.respond allowScaling ps) := by
  rw [respondMatching?, placement?_eq_some]
  rfl

end

end Relaxation.Domain
