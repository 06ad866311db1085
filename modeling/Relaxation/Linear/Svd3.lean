import Relaxation.Geometry.Rotation

/-!
# Singular value decomposition of order three at fixed cost

`Svd3.decompose` diagonalizes `aᵀ a` by a fixed number of Jacobi sweeps with approximate angles,
kept as a quaternion, sorts the columns of `a v` by length and factors the result into a rotation
and an upper triangular matrix by three Givens rotations. Both `u` and `v` are rotations, so the
last entry of `s` carries the sign of the determinant of `a`.
-/

namespace Relaxation

/-- The factors of `u * diag(s) * vᵀ`. -/
structure Svd3 (α : Type) where
  u : Mat3 α
  s : Vec3 α
  v : Mat3 α
  deriving Repr, DecidableEq

/-- A symmetric matrix of order three, by its lower triangle. -/
@[ext] structure Symmetric3 (α : Type) where
  s11 : α
  s21 : α
  s22 : α
  s31 : α
  s32 : α
  s33 : α
  deriving Repr, DecidableEq

namespace Symmetric3

variable {α : Type} [Scalar α]

/-- The lower triangle of a matrix. -/
def ofMat3 (a : Mat3 α) : Symmetric3 α :=
  ⟨a.c1.x, a.c1.y, a.c2.y, a.c1.z, a.c2.z, a.c3.z⟩

/-- The bound `3 + 2√2` beyond which the approximate angle gives way to a fixed one. -/
def fourGammaSquared : α := 5.82842712474619

def cosPiOverEight : α := 0.9238795325112867

def sinPiOverEight : α := 0.3826834323650898

/-- Cosine and sine of half the angle of a rotation that nearly annihilates `a12`. -/
def approximateGivens (a11 a12 a22 : α) : α × α :=
  let ch := 2.0 * (a11 - a22)
  let sh := a12
  if fourGammaSquared * sh * sh < ch * ch then
    let w := Scalar.recip (Scalar.sqrt (ch * ch + sh * sh))
    (w * ch, w * sh)
  else (cosPiOverEight, sinPiOverEight)

/-- Conjugates by the rotation in the plane of the first two axes whose half-angle has the
cosine `ch` and the sine `sh`. -/
def conjugate (ch sh : α) (o : Symmetric3 α) : Symmetric3 α :=
  let scale := ch * ch + sh * sh
  let a := (ch * ch - sh * sh) / scale
  let b := (2.0 * sh * ch) / scale
  { s11 := a * (a * o.s11 + b * o.s21) + b * (a * o.s21 + b * o.s22)
    s21 := a * (-b * o.s11 + a * o.s21) + b * (-b * o.s21 + a * o.s22)
    s22 := -b * (-b * o.s11 + a * o.s21) + a * (-b * o.s21 + a * o.s22)
    s31 := a * o.s31 + b * o.s32
    s32 := -b * o.s31 + a * o.s32
    s33 := o.s33 }

/-- Renames the axes cyclically, so that the second becomes the first. -/
def relabel (r : Symmetric3 α) : Symmetric3 α :=
  ⟨r.s22, r.s32, r.s33, r.s21, r.s31, r.s11⟩

end Symmetric3

/-- The axis about which a Jacobi rotation turns, in the first labelling. -/
inductive Axis where
  | x
  | y
  | z
  deriving Repr, DecidableEq

namespace Quaternion

variable {α : Type} [Scalar α]

/-- The product with the quaternion of scalar part `ch` and vector part `sh` along an axis. -/
def turn (axis : Axis) (ch sh : α) (q : Quaternion α) : Quaternion α :=
  match axis with
  | .z => ⟨q.i * ch + q.j * sh, q.j * ch - q.i * sh, q.k * ch + sh * q.w, q.w * ch - q.k * sh⟩
  | .x => ⟨q.i * ch + sh * q.w, q.j * ch + q.k * sh, q.k * ch - q.j * sh, q.w * ch - q.i * sh⟩
  | .y => ⟨q.i * ch - q.k * sh, q.j * ch + sh * q.w, q.k * ch + q.i * sh, q.w * ch - q.j * sh⟩

end Quaternion

/-- A diagonalization under way: the matrix in the current labelling of the axes, and the
rotation applied so far in the first one. -/
structure Jacobi (α : Type) where
  matrix : Symmetric3 α
  rotation : Quaternion α
  deriving Repr, DecidableEq

namespace Jacobi

variable {α : Type} [Scalar α]

/-- The number of cyclic sweeps. -/
def sweeps : Nat := 4

/-- Rotates about one axis, the third of the current labelling, and moves on to the next. -/
def step (axis : Axis) (j : Jacobi α) : Jacobi α :=
  let (ch, sh) := Symmetric3.approximateGivens j.matrix.s11 j.matrix.s21 j.matrix.s22
  ⟨(j.matrix.conjugate ch sh).relabel, j.rotation.turn axis ch sh⟩

/-- One rotation about each axis. -/
def sweep (j : Jacobi α) : Jacobi α := ((j.step .z).step .x).step .y

/-- The rotation that nearly diagonalizes a symmetric matrix. -/
def diagonalize (s : Symmetric3 α) : Jacobi α :=
  Nat.repeat sweep sweeps ⟨s, Quaternion.identity⟩

end Jacobi

namespace Svd3

variable {α : Type} [Scalar α]

/-- Applies `exchange` to both matrices when, in the first, the column `second` is longer than the
column `first`. -/
def orderColumns (first second : Mat3 α → Vec3 α) (exchange : Mat3 α → Mat3 α)
    (bv : Mat3 α × Mat3 α) : Mat3 α × Mat3 α :=
  if (first bv.1).normSq < (second bv.1).normSq then (exchange bv.1, exchange bv.2) else bv

/-- The columns of `b` in descending order of length, and those of `v` alongside. A column moved
back changes sign, which keeps the determinants. -/
def sortColumns (b v : Mat3 α) : Mat3 α × Mat3 α :=
  let bv := orderColumns Mat3.c1 Mat3.c2 (fun m => ⟨m.c2, -m.c1, m.c3⟩) (b, v)
  let bv := orderColumns Mat3.c1 Mat3.c3 (fun m => ⟨m.c3, m.c2, -m.c1⟩) bv
  orderColumns Mat3.c2 Mat3.c3 (fun m => ⟨m.c1, m.c3, -m.c2⟩) bv

/-- The length below which a pivot counts as zero. -/
def pivotTolerance : α := 1e-15

/-- Cosine and sine of the rotation that annihilates `a2` against the pivot `a1`. -/
def givens (a1 a2 : α) : α × α :=
  let rho := Scalar.sqrt (a1 * a1 + a2 * a2)
  let sh := if pivotTolerance < rho then a2 else 0
  let ch := Scalar.abs a1 + Scalar.max rho pivotTolerance
  let (sh, ch) := if a1 < 0 then (ch, sh) else (sh, ch)
  let w := Scalar.recip (Scalar.sqrt (ch * ch + sh * sh))
  let ch := ch * w
  let sh := sh * w
  (1 - 2.0 * sh * sh, 2.0 * ch * sh)

/-- The factors `q` and `r` of `b`, with `q` a product of three rotations. -/
def qr (b : Mat3 α) : Mat3 α × Mat3 α :=
  let (c, s) := givens b.c1.x b.c1.y
  let g1 := Mat3.ofRows ⟨c, s, 0⟩ ⟨-s, c, 0⟩ ⟨0, 0, 1⟩
  let r := g1 * b
  let (c, s) := givens r.c1.x r.c1.z
  let g2 := Mat3.ofRows ⟨c, 0, s⟩ ⟨0, 1, 0⟩ ⟨-s, 0, c⟩
  let r := g2 * r
  let (c, s) := givens r.c2.y r.c2.z
  let g3 := Mat3.ofRows ⟨1, 0, 0⟩ ⟨0, c, s⟩ ⟨0, -s, c⟩
  let r := g3 * r
  (g1.transpose * g2.transpose * g3.transpose, r)

/-- The rotation from the right, before its columns are sorted. -/
def rightRotation (a : Mat3 α) : Mat3 α :=
  (Jacobi.diagonalize (Symmetric3.ofMat3 (a.transpose * a))).rotation.normalize.toMat3

def decompose (a : Mat3 α) : Svd3 α :=
  let v := rightRotation a
  let (b, v) := sortColumns (a * v) v
  let (u, r) := qr b
  ⟨u, r.diag, v⟩

/-- The matrix `u * diag(s) * vᵀ`. -/
def recompose (d : Svd3 α) : Mat3 α := d.u * Mat3.diagonal d.s * d.v.transpose

end Svd3
end Relaxation
