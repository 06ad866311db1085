import Relaxation.Goal.Angle
import Relaxation.Goal.Collision
import Relaxation.Goal.FaceForce
import Relaxation.Goal.Kind
import Relaxation.Goal.Pairwise
import Relaxation.Goal.Polygon
import Relaxation.Goal.Projection
import Relaxation.Goal.ShapeMatching

/-!
# Aims

An aim is what a goal wants of its nodes: a kind of goal with its parameters. `Aim.respond` says
how far each node should move, and `Aim.readings` what the goal reports; both see nothing but
the number of nodes that the goal is made for and the positions of those it is attached to. The
two may differ; kinds that treat their nodes one by one or pair by pair go by the former, while
fits, means and placements take in every position.
-/

namespace Relaxation

inductive Aim (α : Type) where
  | anchor (target : Vec3 α)
  | force (push : Vec3 α)
  | length (rest : α)
  | clampLength (min max : α)
  | equalLengths
  | parallelLines
  | direction (unit : Vec3 α)
  | angle (size : α)
  | colinear
  | coplanar
  | cocircular
  | cospherical
  | coincident
  | onLine (line : Line α)
  | onPlane (plane : Plane α)
  | onCurve (curve : Shape α)
  | onSurface (surface : Shape α)
  | floor (height : α)
  | sphereCollision (radius : α)
  | sphereStaticLineCollision (segments : List (Vec3 α × Vec3 α)) (radius : α)
  | convexPolygonCollision (sizes : List Nat)
  | convexPolygonContainment (boundary : List (Vec2 α))
  | constantPressure (faces : List Face) (pressure : α)
  | constantVolumePressure (faces : List Face) (amount : α)
  | directionalWind (faces : List Face) (wind : Vec3 α)
  | shapeMatching (shape : TargetShape α) (allowScaling : Bool)
  deriving Repr

namespace Aim

variable {α : Type}

def kind : Aim α → GoalKind
  | anchor _ => .anchor
  | force _ => .force
  | length _ => .length
  | clampLength .. => .clampLength
  | equalLengths => .equalLengths
  | parallelLines => .parallelLines
  | direction _ => .direction
  | angle _ => .angle
  | colinear => .colinear
  | coplanar => .coplanar
  | cocircular => .cocircular
  | cospherical => .cospherical
  | coincident => .coincident
  | onLine _ => .onLine
  | onPlane _ => .onPlane
  | onCurve _ => .onCurve
  | onSurface _ => .onSurface
  | floor _ => .floor
  | sphereCollision _ => .sphereCollision
  | sphereStaticLineCollision .. => .sphereStaticLineCollision
  | convexPolygonCollision _ => .convexPolygonCollision
  | convexPolygonContainment _ => .convexPolygonContainment
  | constantPressure .. => .constantPressure
  | constantVolumePressure .. => .constantVolumePressure
  | directionalWind .. => .directionalWind
  | shapeMatching .. => .shapeMatching

variable [Scalar α]

/-- The displacements that the aim asks for of `n` nodes at the given positions. -/
def respond (aim : Aim α) (n : Nat) (ps : List (Vec3 α)) : Response α :=
  match aim with
  | anchor target => Response.project (fun _ => target) (ps.take 1)
  | force push => List.replicate n (some push)
  | length rest => Pairwise.respond (Pairwise.toLength rest) (ps.take 2)
  | clampLength min max => Pairwise.respond (Pairwise.intoRange min max) (ps.take 2)
  | equalLengths =>
    Pairwise.respond (Pairwise.toLength (Pairwise.meanLength (ps.take n))) (ps.take n)
  | parallelLines => Pairwise.parallelResponse n (ps.take n)
  | direction unit => Pairwise.respond (Pairwise.ontoDirection unit) (ps.take 2)
  | angle size => AngleAtVertex.respond size (ps.take 3)
  | colinear => Projection.ontoLineFit n ps
  | coplanar => Projection.ontoPlaneFit n ps
  | cocircular => Projection.ontoCircleFit n ps
  | cospherical => Projection.ontoSphereFit n ps
  | coincident => Projection.ontoCentroid ps
  | onLine line => Response.project line.closestPoint ps
  | onPlane plane => Response.project plane.closestPoint ps
  | onCurve curve => Response.project curve.closestPoint ps
  | onSurface surface => Response.project surface.closestPoint ps
  | floor height => Collision.floorResponse height ps
  | sphereCollision radius => Collision.spheresResponse radius (ps.take n)
  | sphereStaticLineCollision segments radius => Collision.segmentsResponse radius segments ps
  | convexPolygonCollision sizes => Polygon.collisionResponse sizes ps
  | convexPolygonContainment boundary => Polygon.containmentResponse boundary ps
  | constantPressure faces pressure => FaceForce.pressureResponse n pressure faces ps
  | constantVolumePressure faces amount => FaceForce.gasResponse n amount faces ps
  | directionalWind faces wind => FaceForce.windResponse n wind faces ps
  | shapeMatching shape allowScaling => shape.respond allowScaling ps

/-- The values that the aim reports for `n` nodes at the given positions. -/
def readings (aim : Aim α) (n : Nat) (ps : List (Vec3 α)) : List (Reading α) :=
  match aim with
  | anchor target => (ps.take 1).map fun p => .scalar (target - p).norm
  | length _ | clampLength .. => Pairwise.lengths (ps.take 2)
  | equalLengths => [.scalar (Pairwise.meanLength (ps.take n))]
  | parallelLines =>
    (Pairwise.commonDirection (Pairwise.deltas (ps.take n))).toList.map .vector
  | direction unit => Pairwise.anglesTo unit (ps.take 2)
  | angle _ => AngleAtVertex.readings (ps.take 3)
  | colinear => Projection.lineReadings ps
  | coplanar => Projection.planeReadings ps
  | cocircular => Projection.circleReadings ps
  | cospherical => Projection.sphereReadings ps
  | coincident => [.point (Vec3.centroid ps)]
  | onLine line => [.scalar (Projection.meanDistance line.closestPoint ps)]
  | onPlane plane => [.scalar (Projection.meanDistance plane.closestPoint ps)]
  | onCurve curve => [.scalar (Projection.meanDistance curve.closestPoint ps)]
  | onSurface surface => [.scalar (Projection.meanDistance surface.closestPoint ps)]
  | sphereCollision radius => [.scalar (Collision.overlapCount radius ps : α)]
  | convexPolygonContainment boundary => [.scalar (Polygon.outsideCount boundary ps : α)]
  | constantVolumePressure faces _ => [.scalar (FaceForce.volume faces ps)]
  | shapeMatching shape allowScaling =>
    [.scalar (Placement.ofPoints shape allowScaling ps).scale]
  | force _ | floor _ | sphereStaticLineCollision .. | convexPolygonCollision _
  | constantPressure .. | directionalWind .. => []

end Aim
end Relaxation
