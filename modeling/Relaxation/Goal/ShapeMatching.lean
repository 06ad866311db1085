import Relaxation.Goal.Response
import Relaxation.Linear.Svd3

/-!
# Shape matching

The nodes are moved to the best placement of a target shape: a rotation, a scale if scaling is
allowed, and a translation that takes the centroid of the shape to that of the nodes. The
rotation comes from the decomposition of the cross-covariance. A planar shape may also be
mirrored, since in its plane a reflection is a rotation through space.
-/

namespace Relaxation

/-- A shape to be matched, centered on its centroid. -/
structure TargetShape (α : Type) where
  points : List (Vec3 α)
  /-- The sum of the squared lengths of the points. -/
  sizeSq : α
  planar : Bool
  deriving Repr, DecidableEq

/-- The similarity that takes a point `t` of a target shape to `rotation * t * scale + center`. -/
structure Placement (α : Type) where
  rotation : Mat3 α
  scale : α
  center : Vec3 α
  deriving Repr, DecidableEq

variable {α : Type} [Scalar α]

namespace TargetShape

/-- A shape is planar when the determinant of its covariance is this small beside the cube of
the trace. -/
def planarTolerance : α := 1e-9

def ofPoints (shape : List (Vec3 α)) : TargetShape α :=
  let c := Vec3.centroid shape
  let points := shape.map (· - c)
  let covariance := points.foldl (fun acc t => acc + Mat3.outer t t) (0 : Mat3 α)
  let trace := covariance.trace
  { points
    sizeSq := Scalar.sum (points.map Vec3.normSq)
    planar := Scalar.abs covariance.det ≤ planarTolerance * trace * trace * trace }

end TargetShape

namespace Placement

def apply (x : Placement α) (t : Vec3 α) : Vec3 α := x.rotation * t * x.scale + x.center

def flipThird (a : Mat3 α) : Mat3 α := { a with c3 := -a.c3 }

/-- The rotation and scale that fit best after a decomposition of the cross-covariance. -/
def ofSvd (d : Svd3 α) (shape : TargetShape α) (allowScaling : Bool) (center : Vec3 α) :
    Placement α :=
  let (u, s) : Mat3 α × Vec3 α :=
    if d.s.z < 0 then (flipThird d.u, { d.s with z := -d.s.z }) else (d.u, d.s)
  let rotation := u * d.v.transpose
  let mirrored := rotation.det < 0 && !shape.planar
  let rotation := if mirrored then flipThird u * d.v.transpose else rotation
  let sense : α := if mirrored then -1 else 1
  let scale := if allowScaling then (s.x + s.y + sense * s.z) / shape.sizeSq else 1
  ⟨rotation, scale, center⟩

/-- The best placement of a shape on points listed in the same order. A shape that is almost a
point is placed on the centroid. -/
def ofPoints (shape : TargetShape α) (allowScaling : Bool) (ps : List (Vec3 α)) : Placement α :=
  let center := Vec3.centroid ps
  if shape.sizeSq < 1e-24 then ⟨1, 1, center⟩
  else
    let covariance := (ps.zip shape.points).foldl
      (fun acc (p, t) => acc + Mat3.outer (p - center) t) (0 : Mat3 α)
    ofSvd (Svd3.decompose covariance) shape allowScaling center

end Placement

namespace TargetShape

def respond (shape : TargetShape α) (allowScaling : Bool) (ps : List (Vec3 α)) : Response α :=
  let placement := Placement.ofPoints shape allowScaling ps
  (ps.zip shape.points).map fun (p, t) => some (placement.apply t - p)

end TargetShape
end Relaxation
