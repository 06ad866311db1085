import Relaxation.Fit.Axes

/-!
# Best-fit circles

The circle that minimizes the algebraic error in the best-fit plane, from the moments of the
points up to the third order.
-/

namespace Relaxation

variable {α : Type} [Scalar α]

/-- Moments of plane coordinates: `uuv` is the sum of `u * u * v`, and so on. -/
structure PlaneMoments (α : Type) where
  uu : α
  uv : α
  vv : α
  uuu : α
  vvv : α
  uvv : α
  vuu : α

namespace PlaneMoments

def zero : PlaneMoments α := ⟨0, 0, 0, 0, 0, 0, 0⟩

def add (m : PlaneMoments α) (u v : α) : PlaneMoments α :=
  ⟨m.uu + u * u, m.uv + u * v, m.vv + v * v, m.uuu + u * u * u, m.vvv + v * v * v,
    m.uvv + u * v * v, m.vuu + v * u * u⟩

/-- The moments of the points in the axes of the plane, about its origin. -/
def ofPoints (plane : PlaneFit α) (points : List (Vec3 α)) : PlaneMoments α :=
  points.foldl
    (fun m p =>
      let d := p - plane.origin
      m.add (d.dot plane.xAxis) (d.dot plane.yAxis))
    zero

end PlaneMoments

/-- The best-fit circle in a given plane, `none` when the points are colinear in it. -/
def Circle.inPlane? (plane : PlaneFit α) (points : List (Vec3 α)) : Option (Circle α) :=
  let m := PlaneMoments.ofPoints plane points
  let det := m.uu * m.vv - m.uv * m.uv
  let size := m.uu + m.vv
  if Scalar.abs det ≤ flatnessTolerance * (size * size) then none
  else
    let bu := 0.5 * (m.uuu + m.uvv)
    let bv := 0.5 * (m.vvv + m.vuu)
    let uc := (bu * m.vv - m.uv * bv) / det
    let vc := (m.uu * bv - m.uv * bu) / det
    let radius := Scalar.sqrt (uc * uc + vc * vc + (m.uu + m.vv) / (points.length : α))
    some ⟨plane.origin + plane.xAxis * uc + plane.yAxis * vc, plane.normal, radius⟩

/-- The best-fit circle in the best-fit plane, `none` when the points are coincident or colinear. -/
def Circle.ofPlane? (points : List (Vec3 α)) (plane : PlaneFit α) : Option (Circle α) :=
  match plane.kind with
  | .coincident | .colinear => none
  | .coplanar | .general => inPlane? plane points

def Circle.ofPoints? (points : List (Vec3 α)) : Option (Circle α) :=
  match PlaneFit.ofPoints points with
  | .error _ => none
  | .ok plane => ofPlane? points plane

end Relaxation
