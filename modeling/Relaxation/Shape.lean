import Relaxation.Fault
import Relaxation.Geometry.ClosestPoint

/-!
# Shapes

Fixed geometry that points can be projected onto. Each shape has a constructor that refuses what
has no closest point, and a function `closestPoint`.
-/

namespace Relaxation

/-- An infinite line with a unit direction. -/
structure Line (α : Type) where
  origin : Vec3 α
  direction : Vec3 α
  deriving Repr, DecidableEq

/-- An infinite plane with a unit normal. -/
structure Plane (α : Type) where
  origin : Vec3 α
  normal : Vec3 α
  deriving Repr, DecidableEq

structure Sphere (α : Type) where
  center : Vec3 α
  radius : α
  deriving Repr, DecidableEq

/-- A circle in the plane through its center with a unit normal. -/
structure Circle (α : Type) where
  center : Vec3 α
  normal : Vec3 α
  radius : α
  deriving Repr, DecidableEq

/-- A chain of at least two points, whose ends are joined when it is closed. -/
structure Polyline (α : Type) where
  points : List (Vec3 α)
  closed : Bool
  deriving Repr, DecidableEq

/-- A surface of triangles, at least one. -/
structure TriangleMesh (α : Type) where
  vertices : List (Vec3 α)
  faces : List Face
  deriving Repr, DecidableEq

/-- The part of a line from its origin on, in its unit direction. -/
structure Ray (α : Type) where
  origin : Vec3 α
  direction : Vec3 α
  deriving Repr, DecidableEq

variable {α : Type} [Scalar α]

/-- The unit vector along `v`, refused when `v` is almost zero. -/
def checkedUnit (part : Part) (what : String) (v : Vec3 α) : Checked α (Vec3 α) :=
  if v.almostZero 1e-12 then .error (.invalidParameter part (.zeroVector what))
  else .ok v.normalize

/-- The nearest to `p` of several candidates, the first of equally near ones. -/
def nearestTo (p : Vec3 α) (candidates : List (Vec3 α)) : Vec3 α :=
  (Scalar.firstMinBy (·.distSq p) candidates).getD p

namespace Line

def make (origin direction : Vec3 α) : Checked α (Line α) :=
  return ⟨origin, ← checkedUnit .line "direction" direction⟩

def closestPoint (l : Line α) (p : Vec3 α) : Vec3 α :=
  l.origin + l.direction * (p - l.origin).dot l.direction

end Line

namespace Plane

def make (origin normal : Vec3 α) : Checked α (Plane α) :=
  return ⟨origin, ← checkedUnit .plane "normal" normal⟩

/-- The distance to the plane, positive on the side the normal points to. -/
def signedDistance (l : Plane α) (p : Vec3 α) : α := (p - l.origin).dot l.normal

def closestPoint (l : Plane α) (p : Vec3 α) : Vec3 α := p - l.normal * l.signedDistance p

end Plane

/-- The closest point to the center takes the direction of the first axis. -/
def Sphere.closestPoint (s : Sphere α) (p : Vec3 α) : Vec3 α :=
  let offset := p - s.center
  let offset := if offset.almostZero 1e-12 then Vec3.xAxis else offset
  s.center + offset.normalize * s.radius

/-- The closest point to a point of the axis lies in a fixed direction perpendicular to it. -/
def Circle.closestPoint (c : Circle α) (p : Vec3 α) : Vec3 α :=
  let offset := p - c.center
  let inPlane := offset - c.normal * offset.dot c.normal
  let inPlane := if inPlane.almostZero 1e-12 then c.normal.perpendicular else inPlane
  c.center + inPlane.normalize * c.radius

namespace Polyline

def make (points : List (Vec3 α)) (closed : Bool) : Checked α (Polyline α) :=
  if points.length < 2 then .error (.invalidParameter .polyline (.tooFewPoints points.length))
  else .ok ⟨points, closed⟩

/-- The segments in order; the one from the last point to the first, if any, comes last. -/
def segments (l : Polyline α) : List (Vec3 α × Vec3 α) :=
  let joint :=
    match l.closed, l.points.head?, l.points.getLast? with
    | true, some first, some last => [(last, first)]
    | _, _, _ => []
  l.points.zip l.points.tail ++ joint

def closestPoint (l : Polyline α) (p : Vec3 α) : Vec3 α :=
  nearestTo p (l.segments.map fun (a, b) => closestOnSegment p a b)

end Polyline

namespace TriangleMesh

def make (vertices : List (Vec3 α)) (faces : List Face) : Checked α (TriangleMesh α) := do
  requireFaces vertices.length faces
  if faces.isEmpty then .error (.invalidParameter .triangleMesh .noFaces)
  else .ok ⟨vertices, faces⟩

def closestPoint (m : TriangleMesh α) (p : Vec3 α) : Vec3 α :=
  let corner := vertexAt m.vertices
  nearestTo p (m.faces.map fun f => closestOnTriangle p (corner f.a) (corner f.b) (corner f.c))

end TriangleMesh

namespace Ray

def make (origin direction : Vec3 α) : Checked α (Ray α) :=
  return ⟨origin, ← checkedUnit .ray "direction" direction⟩

/-- The closest point of the ray; it is the origin for points behind it. -/
def closestPoint (r : Ray α) (p : Vec3 α) : Vec3 α :=
  r.origin + r.direction * Scalar.max ((p - r.origin).dot r.direction) 0

def distSq (r : Ray α) (p : Vec3 α) : α := (r.closestPoint p).distSq p

end Ray

/-- A shape that a goal can hold nodes on. -/
inductive Shape (α : Type) where
  | line (l : Line α)
  | plane (l : Plane α)
  | sphere (s : Sphere α)
  | polyline (l : Polyline α)
  | mesh (m : TriangleMesh α)
  deriving Repr, DecidableEq

def Shape.closestPoint (s : Shape α) (p : Vec3 α) : Vec3 α :=
  match s with
  | line l => l.closestPoint p
  | plane l => l.closestPoint p
  | sphere s => s.closestPoint p
  | polyline l => l.closestPoint p
  | mesh m => m.closestPoint p

end Relaxation
