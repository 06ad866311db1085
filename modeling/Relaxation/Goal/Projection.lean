import Relaxation.Fit.Circle
import Relaxation.Fit.Sphere
import Relaxation.Goal.Response

/-!
# Goals that project nodes

The best-fit goals fit a line, plane, circle or sphere, or a single point, through the current
positions of their nodes and move every node to the closest point of it; without a fit they
respond to nothing. The other projections go to a fixed shape.
-/

namespace Relaxation.Projection

variable {α : Type} [Scalar α]

/-- Projects onto a fit if there is one. Without one none of `n` nodes is touched. -/
def ontoFit {β : Type} (closestPoint : β → Vec3 α → Vec3 α) (fit : Option β) (n : Nat)
    (ps : List (Vec3 α)) : Response α :=
  match fit with
  | some shape => Response.project (closestPoint shape) ps
  | none => Response.idle n

def ontoLineFit (n : Nat) (ps : List (Vec3 α)) : Response α :=
  ontoFit (fun l : LineFit α => l.closestPoint) (LineFit.ofPoints ps).toOption n ps

def ontoPlaneFit (n : Nat) (ps : List (Vec3 α)) : Response α :=
  ontoFit (fun l : PlaneFit α => l.closestPoint) (PlaneFit.ofPoints ps).toOption n ps

def ontoCircleFit (n : Nat) (ps : List (Vec3 α)) : Response α :=
  ontoFit Circle.closestPoint (Circle.ofPoints? ps) n ps

def ontoSphereFit (n : Nat) (ps : List (Vec3 α)) : Response α :=
  ontoFit Sphere.closestPoint (Sphere.ofPoints? ps) n ps

def ontoCentroid (ps : List (Vec3 α)) : Response α :=
  let c := Vec3.centroid ps
  Response.project (fun _ => c) ps

def lineReadings (ps : List (Vec3 α)) : List (Reading α) :=
  match LineFit.ofPoints ps with
  | .ok l => [.point l.origin, .vector l.direction]
  | .error _ => []

def planeReadings (ps : List (Vec3 α)) : List (Reading α) :=
  match PlaneFit.ofPoints ps with
  | .ok l => [.point l.origin, .vector l.normal]
  | .error _ => []

def circleReadings (ps : List (Vec3 α)) : List (Reading α) :=
  match Circle.ofPoints? ps with
  | some c => [.point c.center, .scalar c.radius]
  | none => []

def sphereReadings (ps : List (Vec3 α)) : List (Reading α) :=
  match Sphere.ofPoints? ps with
  | some s => [.point s.center, .scalar s.radius]
  | none => []

/-- The mean distance of the nodes from the closest points of a shape. -/
def meanDistance (closestPoint : Vec3 α → Vec3 α) (ps : List (Vec3 α)) : α :=
  Scalar.sum (ps.map fun p => (closestPoint p - p).norm) / (ps.length : α)

end Relaxation.Projection
