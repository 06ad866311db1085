import Relaxation.Geometry.Mat3
import Relaxation.Linear.Svd
import Relaxation.Shape

/-!
# Best-fit lines and planes

The axes of a point set are the right singular vectors of its covariance, and the singular values
are the variances along them. A variance that vanishes, or that is small beside the greatest one,
tells how degenerate the points are; the fit is defined in every case and says which it met.
-/

namespace Relaxation

inductive LineFitKind where
  | coincident
  | colinear
  | scattered
  deriving Repr, DecidableEq

inductive PlaneFitKind where
  | coincident
  | colinear
  | coplanar
  | general
  deriving Repr, DecidableEq

structure LineFit (α : Type) extends Line α where
  kind : LineFitKind
  deriving Repr, DecidableEq

/-- A plane with two unit axes in it, `xAxis` along the greatest variance. -/
structure PlaneFit (α : Type) extends Plane α where
  xAxis : Vec3 α
  yAxis : Vec3 α
  kind : PlaneFitKind
  deriving Repr, DecidableEq

/-- The variances of a point set along three axes, in descending order. -/
structure PrincipalAxes (α : Type) where
  centroid : Vec3 α
  values : Vec3 α
  first : Vec3 α
  second : Vec3 α
  third : Vec3 α

variable {α : Type} [Scalar α]

/-- Variances below this bound mean that all points coincide. -/
def coincidentTolerance : α := 1e-12

/-- Variances below this fraction of the greatest one mean that the points are flat. -/
def flatnessTolerance : α := 1e-10

/-- The mean of `(p - c)(p - c)ᵀ`. -/
def covariance (c : Vec3 α) (points : List (Vec3 α)) : Mat3 α :=
  let total := points.foldl (fun acc p => acc + Mat3.outer (p - c) (p - c)) 0
  if points.isEmpty then total else total / (points.length : α)

def Mat3.toDense (a : Mat3 α) : DenseMatrix 3 3 α :=
  ⟨#v[#v[a.c1.x, a.c2.x, a.c3.x], #v[a.c1.y, a.c2.y, a.c3.y], #v[a.c1.z, a.c2.z, a.c3.z]]⟩

def DenseMatrix.columnVec (a : DenseMatrix 3 3 α) (j : Fin 3) : Vec3 α := ⟨a 0 j, a 1 j, a 2 j⟩

namespace PrincipalAxes

/-- The axes about a centroid from a decomposition of the covariance. -/
def ofSvd (c : Vec3 α) (d : Svd 3 3 α) : PrincipalAxes α :=
  let svd := d.sorted
  ⟨c, ⟨svd.w[0], svd.w[1], svd.w[2]⟩, svd.v.columnVec 0, svd.v.columnVec 1, svd.v.columnVec 2⟩

def ofPoints (points : List (Vec3 α)) : Checked α (PrincipalAxes α) := do
  let c := Vec3.centroid points
  return ofSvd c (← Svd.decompose (covariance c points).toDense)

def lineKind (a : PrincipalAxes α) : LineFitKind :=
  if a.values.x < coincidentTolerance then .coincident
  else if a.values.y < flatnessTolerance * a.values.x then .colinear
  else .scattered

def planeKind (a : PrincipalAxes α) : PlaneFitKind :=
  if a.values.x < coincidentTolerance then .coincident
  else if a.values.y < flatnessTolerance * a.values.x then .colinear
  else if a.values.z < flatnessTolerance * a.values.x then .coplanar
  else .general

/-- The in-plane axis and the normal of the best-fit plane. -/
def planeFrame (a : PrincipalAxes α) : Vec3 α × Vec3 α :=
  match a.planeKind with
  | .coincident => (Vec3.xAxis, Vec3.zAxis)
  | .colinear => (a.first.normalize, a.first.normalize.perpendicular.normalize)
  | .coplanar | .general =>
    (a.first.normalize, (a.first.normalize.cross a.second).normalize)

end PrincipalAxes

/-- The line through the centroid along the greatest variance. -/
def LineFit.ofAxes (axes : PrincipalAxes α) : LineFit α :=
  let direction :=
    match axes.lineKind with
    | .coincident => Vec3.xAxis
    | .colinear | .scattered => axes.first.normalize
  ⟨⟨axes.centroid, direction⟩, axes.lineKind⟩

def LineFit.ofPoints (points : List (Vec3 α)) : Checked α (LineFit α) := do
  return ofAxes (← PrincipalAxes.ofPoints points)

/-- The plane through the centroid normal to the least variance. -/
def PlaneFit.ofAxes (axes : PrincipalAxes α) : PlaneFit α :=
  let (x, normal) := axes.planeFrame
  ⟨⟨axes.centroid, normal⟩, x, normal.cross x, axes.planeKind⟩

def PlaneFit.ofPoints (points : List (Vec3 α)) : Checked α (PlaneFit α) := do
  return ofAxes (← PrincipalAxes.ofPoints points)

end Relaxation
