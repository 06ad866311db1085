import Relaxation.Geometry.Vec2
import Relaxation.Goal.Response

/-!
# Convex polygons in the horizontal plane

Overlapping polygons are pushed apart along the edge normal of least overlap, half by each, and
nodes outside a fixed polygon are moved back across the edge that they violate most. Heights are
left alone.
-/

namespace Relaxation.Polygon

variable {α : Type} [Scalar α]

/-- The edges of a polygon as start points with the vectors to the next vertex. -/
def edges (poly : List (Vec2 α)) : List (Vec2 α × Vec2 α) :=
  poly.zip ((poly.tail ++ poly.take 1).zipWith (· - ·) poly)

/-- Twice the signed area, positive for a counter-clockwise polygon. -/
def doubleArea (poly : List (Vec2 α)) : α :=
  Scalar.sum ((poly.zip (poly.tail ++ poly.take 1)).map fun (a, b) => a.x * b.y - b.x * a.y)

/-- The unit vector to the right of an edge vector. -/
def edgeNormal (e : Vec2 α) : Vec2 α := (⟨e.y, -e.x⟩ : Vec2 α) / e.norm

/-- The normals of the edges longer than `1e-12`. -/
def edgeNormals (poly : List (Vec2 α)) : List (Vec2 α) :=
  (edges poly).filterMap fun (_, e) => if 1e-12 < e.norm then some (edgeNormal e) else none

/-- The least and the greatest coordinate of a polygon along an axis. Coordinates that are no
numbers do not count; without any other there is no extent. -/
def extent (poly : List (Vec2 α)) (axis : Vec2 α) : Option (α × α) :=
  match (poly.map (·.dot axis)).filter fun x => x == x with
  | [] => none
  | x :: xs => some (xs.foldl Scalar.min x, xs.foldl Scalar.max x)

/-- How far the extents of two polygons along an axis overlap, none when they do not. -/
def overlap (a b : List (Vec2 α)) (axis : Vec2 α) : Option α :=
  match extent a axis, extent b axis with
  | some (amin, amax), some (bmin, bmax) =>
    let depth := Scalar.min amax bmax - Scalar.max amin bmin
    if depth ≤ 0 then none else some depth
  | _, _ => none

/-- The least overlap over several axes, with the first axis that attains it, none when the
polygons are apart along one of the axes or there is no axis. -/
def leastOverlap (a b axes : List (Vec2 α)) : Option (α × Vec2 α) := do
  let overlaps ← axes.mapM fun axis => (overlap a b axis).map (·, axis)
  match overlaps with
  | [] => none
  | x :: xs => some (xs.foldl (fun best y => if y.1 < best.1 then y else best) x)

/-- The translation of `b` away from `a` by their least overlap, none when an edge normal separates
them. -/
def separatingTranslation (a b : List (Vec2 α)) : Option (Vec2 α) := do
  let (depth, axis) ← leastOverlap a b (edgeNormals a ++ edgeNormals b)
  let toB := Vec2.centroid b - Vec2.centroid a
  let axis := if toB.dot axis < 0 then -axis else axis
  return axis * depth

/-- Half of the translation of `b` away from `a`, as a displacement. -/
def pushApart (a b : List (Vec2 α)) : Option (Vec3 α) :=
  (separatingTranslation a b).map fun t => ⟨0.5 * t.x, 0.5 * t.y, 0⟩

/-- Cuts a list into consecutive parts of given lengths. -/
def cut {β : Type} : List Nat → List β → List (List β)
  | [], _ => []
  | n :: ns, xs => xs.take n :: cut ns (xs.drop n)

/-- Each node of a polygon takes the mean of the polygon's corrections. -/
def separate (polygons : List (List (Vec2 α))) : Response α :=
  (polygons.zip (mutualCorrections pushApart polygons)).flatMap fun (poly, corrections) =>
    poly.map fun _ => Response.averaged corrections

/-- Pushes apart the polygons that the nodes form, with `sizes` vertices each. -/
def collisionResponse (sizes : List Nat) (ps : List (Vec3 α)) : Response α :=
  separate (cut sizes (ps.map Vec2.ofVec3))

/-- The distance of a point beyond an edge, with the edge's normal; edges shorter than `1e-12`
do not count. -/
def violation (p a e : Vec2 α) : Option (α × Vec2 α) :=
  if e.norm < 1e-12 then none else some ((p - a).dot (edgeNormal e), edgeNormal e)

/-- The greatest distance of a point beyond an edge of a counter-clockwise polygon, if the point
is outside. -/
def worstViolation (boundary : List (Vec2 α)) (p : Vec2 α) : Option (α × Vec2 α) :=
  (Scalar.lastMaxBy Prod.fst ((edges boundary).filterMap fun (a, e) => violation p a e)).filter
    fun (depth, _) => 0 < depth

/-- The displacement that takes a violating point back onto the edge. -/
def inward (depth : α) (normal : Vec2 α) : Vec3 α := ⟨-normal.x * depth, -normal.y * depth, 0⟩

def containmentResponse (boundary : List (Vec2 α)) (ps : List (Vec3 α)) : Response α :=
  ps.map fun p =>
    let worst := (worstViolation boundary (Vec2.ofVec3 p)).toList
    Response.averaged (worst.map fun (depth, normal) => inward depth normal)

/-- The number of nodes outside the boundary. -/
def outsideCount (boundary : List (Vec2 α)) (ps : List (Vec3 α)) : Nat :=
  ps.countP fun p => (worstViolation boundary (Vec2.ofVec3 p)).isSome

end Relaxation.Polygon
