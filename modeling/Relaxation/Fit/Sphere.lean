import Relaxation.Shape

/-!
# Best-fit spheres

The sphere that minimizes the algebraic error, from the moments of the points up to the third
order. The center solves a system of three linear equations by Cramer's rule.
-/

namespace Relaxation

variable {α : Type} [Scalar α]

/-- Moments of coordinates: `xxy` is the sum of `x * x * y`, and so on. -/
structure SpaceMoments (α : Type) where
  x : α
  y : α
  z : α
  xx : α
  yy : α
  zz : α
  xy : α
  xz : α
  yz : α
  xxx : α
  yyy : α
  zzz : α
  xyy : α
  xzz : α
  xxy : α
  xxz : α
  yyz : α
  yzz : α

namespace SpaceMoments

def zero : SpaceMoments α := ⟨0, 0, 0, 0, 0, 0, 0, 0, 0, 0, 0, 0, 0, 0, 0, 0, 0, 0⟩

def add (m : SpaceMoments α) (p : Vec3 α) : SpaceMoments α :=
  let ⟨x, y, z⟩ := p
  { x := m.x + x
    y := m.y + y
    z := m.z + z
    xx := m.xx + x * x
    yy := m.yy + y * y
    zz := m.zz + z * z
    xy := m.xy + x * y
    xz := m.xz + x * z
    yz := m.yz + y * z
    xxx := m.xxx + x * x * x
    yyy := m.yyy + y * y * y
    zzz := m.zzz + z * z * z
    xyy := m.xyy + x * y * y
    xzz := m.xzz + x * z * z
    xxy := m.xxy + x * x * y
    xxz := m.xxz + x * x * z
    yyz := m.yyz + y * y * z
    yzz := m.yzz + y * z * z }

/-- The moments of the points about `c`. -/
def about (c : Vec3 α) (points : List (Vec3 α)) : SpaceMoments α :=
  points.foldl (fun m p => m.add (p - c)) zero

end SpaceMoments

/-- The symmetric system of three linear equations for a center. -/
structure CenterSystem (α : Type) where
  a : α
  b : α
  c : α
  f : α
  g : α
  l : α
  d : α
  h : α
  m : α

namespace CenterSystem

/-- The normal equations of the fit of `n` points. -/
def ofMoments (n : α) (s : SpaceMoments α) : CenterSystem α :=
  let size := s.xx + s.yy + s.zz
  { a := 2.0 * s.x * s.x - 2.0 * n * s.xx
    b := 2.0 * s.x * s.y - 2.0 * n * s.xy
    c := 2.0 * s.x * s.z - 2.0 * n * s.xz
    f := 2.0 * s.y * s.y - 2.0 * n * s.yy
    g := 2.0 * s.y * s.z - 2.0 * n * s.yz
    l := 2.0 * s.z * s.z - 2.0 * n * s.zz
    d := -n * (s.xxx + s.xyy + s.xzz) + size * s.x
    h := -n * (s.xxy + s.yyy + s.yzz) + size * s.y
    m := -n * (s.xxz + s.yyz + s.zzz) + size * s.z }

def det (e : CenterSystem α) : α :=
  e.a * (e.f * e.l - e.g * e.g) - e.b * (e.b * e.l - e.c * e.g) + e.c * (e.b * e.g - e.c * e.f)

/-- The cube of the trace of magnitudes, which the determinant is compared with. -/
def magnitude (e : CenterSystem α) : α :=
  let size := Scalar.abs e.a + Scalar.abs e.f + Scalar.abs e.l
  size * size * size

/-- The solution by Cramer's rule. -/
def solve (e : CenterSystem α) : Vec3 α :=
  let delta := e.det
  ⟨(e.d * (e.f * e.l - e.g * e.g) - e.h * (e.b * e.l - e.c * e.g) +
      e.m * (e.b * e.g - e.c * e.f)) / delta,
    (e.a * (e.h * e.l - e.m * e.g) - e.b * (e.d * e.l - e.m * e.c) +
      e.c * (e.d * e.g - e.h * e.c)) / delta,
    (e.a * (e.f * e.m - e.h * e.g) - e.b * (e.b * e.m - e.d * e.g) +
      e.c * (e.b * e.h - e.d * e.f)) / delta⟩

end CenterSystem

/-- Determinants below this fraction of their magnitude count as zero. -/
def sphereTolerance : α := 1e-12

/-- The best-fit sphere, `none` for fewer than four points and for coplanar ones. -/
def Sphere.ofPoints? (points : List (Vec3 α)) : Option (Sphere α) :=
  if points.length < 4 then none
  else
    let c := Vec3.centroid points
    let n : α := (points.length : α)
    let s := SpaceMoments.about c points
    let e := CenterSystem.ofMoments n s
    if Scalar.abs e.det ≤ sphereTolerance * e.magnitude then none
    else
      let o := e.solve
      let size := s.xx + s.yy + s.zz
      let radiusSq :=
        o.x * o.x + o.y * o.y + o.z * o.z +
          (size - 2.0 * (o.x * s.x + o.y * s.y + o.z * s.z)) / n
      if radiusSq < 0 then none else some ⟨c + o, Scalar.sqrt radiusSq⟩

end Relaxation
