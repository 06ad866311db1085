import Relaxation.Geometry.Mat3

/-!
# Rotations

Rotation matrices from an axis and an angle, and from a quaternion.
-/

namespace Relaxation

variable {α : Type} [Scalar α]

/-- The rotation by `angle` about the unit vector `axis`. -/
def Mat3.rotation (axis : Vec3 α) (angle : α) : Mat3 α :=
  if angle == 0 then 1
  else
    let s := Scalar.sin angle
    let c := Scalar.cos angle
    let k := 1 - c
    let ⟨x, y, z⟩ := axis
    let xx := x * x
    let yy := y * y
    let zz := z * z
    Mat3.ofRows
      ⟨xx + (1 - xx) * c, x * y * k - z * s, x * z * k + y * s⟩
      ⟨x * y * k + z * s, yy + (1 - yy) * c, y * z * k - x * s⟩
      ⟨x * z * k - y * s, y * z * k + x * s, zz + (1 - zz) * c⟩

/-- The quaternion `w + i·𝐢 + j·𝐣 + k·𝐤`. -/
@[ext] structure Quaternion (α : Type) where
  i : α
  j : α
  k : α
  w : α
  deriving Repr, DecidableEq

namespace Quaternion

def identity : Quaternion α := ⟨0, 0, 0, 1⟩

def norm (q : Quaternion α) : α :=
  Scalar.sqrt ((q.i * q.i + q.k * q.k) + (q.j * q.j + q.w * q.w))

def normalize (q : Quaternion α) : Quaternion α :=
  let n := q.norm
  ⟨q.i / n, q.j / n, q.k / n, q.w / n⟩

/-- The rotation that a unit quaternion stands for. -/
def toMat3 (q : Quaternion α) : Mat3 α :=
  let ⟨i, j, k, w⟩ := q
  let ww := w * w
  let ii := i * i
  let jj := j * j
  let kk := k * k
  let ij := i * j * 2.0
  let wk := w * k * 2.0
  let wj := w * j * 2.0
  let ik := i * k * 2.0
  let jk := j * k * 2.0
  let wi := w * i * 2.0
  Mat3.ofRows
    ⟨ww + ii - jj - kk, ij - wk, wj + ik⟩
    ⟨wk + ij, ww - ii + jj - kk, jk - wi⟩
    ⟨ik - wj, wi + jk, ww - ii - jj + kk⟩

end Quaternion
end Relaxation
