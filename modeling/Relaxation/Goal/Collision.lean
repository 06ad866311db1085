import Relaxation.Geometry.ClosestPoint
import Relaxation.Goal.Response

/-!
# Collisions with the floor, among spheres and with segments

A node that violates nothing is left alone. A node caught in several violations takes the mean
of their corrections.
-/

namespace Relaxation.Collision

variable {α : Type} [Scalar α]

/-- Lifts nodes below the horizontal plane at `height` onto it. -/
def floorResponse (height : α) (ps : List (Vec3 α)) : Response α :=
  ps.map fun p =>
    let depth := height - p.z
    Response.averaged (if 0 < depth then [⟨0, 0, depth⟩] else [])

/-- The displacement of the sphere at `q`, away from an overlapping sphere at `p` of the same
diameter, by half the overlap. Spheres with one center part along the first axis. -/
def pushApart (diameter : α) (p q : Vec3 α) : Option (Vec3 α) :=
  let delta := q - p
  let distSq := delta.normSq
  if diameter * diameter ≤ distSq then none
  else
    let dist := Scalar.sqrt distSq
    let direction := if delta.almostZero 1e-12 then Vec3.xAxis else delta / dist
    some (direction * (0.5 * (diameter - dist)))

def spheresResponse (radius : α) (ps : List (Vec3 α)) : Response α :=
  (mutualCorrections (pushApart (2.0 * radius)) ps).map Response.averaged

/-- The number of pairs of overlapping spheres. -/
def overlapCount (radius : α) (ps : List (Vec3 α)) : Nat :=
  let diameterSq := 4.0 * radius * radius
  (ps.zipIdx.flatMap fun (p, i) => (ps.drop (i + 1)).filter (p.distSq · < diameterSq)).length

/-- A direction in which a center on the segment itself leaves it. -/
def sideways (a b : Vec3 α) : Vec3 α :=
  let along := b - a
  if along.almostZero 1e-12 then Vec3.zAxis else along.perpendicular.normalize

/-- The correction that takes the sphere around `p` off the segment from `a` to `b`. -/
def offSegment (radius : α) (p a b : Vec3 α) : Option (Vec3 α) :=
  let delta := p - closestOnSegment p a b
  let dist := delta.norm
  if radius ≤ dist then none
  else
    let direction := if delta.almostZero 1e-12 then sideways a b else delta / dist
    some (direction * (radius - dist))

def segmentsResponse (radius : α) (segments : List (Vec3 α × Vec3 α)) (ps : List (Vec3 α)) :
    Response α :=
  ps.map fun p =>
    Response.averaged (segments.filterMap fun (a, b) => offSegment radius p a b)

end Relaxation.Collision
