import Relaxation.Goal.Basic

/-!
# Making goals

One constructor for each kind of goal, named like the kind. A constructor refuses too few nodes
and parameters that are of no use; weights are finite and not negative. Where several things are
wrong, the first check in the order written decides.
-/

namespace Relaxation.Goal

variable {α : Type} [Scalar α]

/-- The unit vector along a direction, which must be finite and not almost zero. -/
def checkedDirection (v : Vec3 α) : Checked α (Vec3 α) := do
  requireFinitePoint (.goal .direction) "direction" v
  checkedUnit (.goal .direction) "direction" v

def checkRange (min max : α) : Checked α Unit := do
  requireNonNegative (.goal .clampLength) "min" min
  requireNonNegative (.goal .clampLength) "max" max
  if max < min then .error (.invalidParameter (.goal .clampLength) (.invertedRange min max))
  else .ok ()

/-- An angle lies between zero and a straight one. -/
def checkAngle (size : α) : Checked α Unit :=
  if 0 ≤ size ∧ size ≤ Scalar.pi then .ok ()
  else .error (.invalidParameter (.goal .angle) (.angleOutOfRange size))

/-- A mesh under load has at least three vertices and a face, and its faces have their corners
among the vertices. -/
def checkMesh (kind : GoalKind) (vertices : List (Vec3 α)) (faces : List Face) :
    Checked α Unit := do
  requireAtLeast (.goal kind) 3 vertices
  if faces.isEmpty then throw (.invalidParameter (.goal kind) .noFaces)
  requireFaces vertices.length faces

/-- Checks the number of nodes and the weight, which is all there is to check for many aims. -/
def ofNodes (aim : Aim α) (required : Nat) (points : List (Vec3 α)) (weight : α) :
    Checked α (Goal α) := do
  requireAtLeast (.goal aim.kind) required points
  requireWeight (.goal aim.kind) weight
  return ofAim aim points weight

/-- Pulls a node from `position` to `target`. -/
def anchor (position target : Vec3 α) (weight : α) : Checked α (Goal α) := do
  requireFinitePoint (.goal .anchor) "target" target
  requireWeight (.goal .anchor) weight
  return ofAim (.anchor target) [position] weight

/-- Displaces every node by the same vector in every iteration. -/
def force (points : List (Vec3 α)) (push : Vec3 α) (weight : α) : Checked α (Goal α) := do
  requireAtLeast (.goal .force) 1 points
  requireFinitePoint (.goal .force) "force" push
  requireWeight (.goal .force) weight
  return ofAim (.force push) points weight

/-- Keeps two nodes at a given distance. -/
def length (first last : Vec3 α) (rest weight : α) : Checked α (Goal α) := do
  requireNonNegative (.goal .length) "length" rest
  requireWeight (.goal .length) weight
  return ofAim (.length rest) [first, last] weight

/-- Keeps two nodes at the distance at which they start. -/
def currentLength (first last : Vec3 α) (weight : α) : Checked α (Goal α) :=
  length first last (last - first).norm weight

/-- Keeps the distance of two nodes in a range. -/
def clampLength (first last : Vec3 α) (min max weight : α) : Checked α (Goal α) := do
  requireWeight (.goal .clampLength) weight
  checkRange min max
  return ofAim (.clampLength min max) [first, last] weight

/-- Makes all segments, given by their ends back to back, equally long. -/
def equalLengths (ends : List (Vec3 α)) (weight : α) : Checked α (Goal α) := do
  requireEven (.goal .equalLengths) ends
  requireWeight (.goal .equalLengths) weight
  return ofAim .equalLengths ends weight

/-- Makes all segments, given by their ends back to back, parallel. -/
def parallelLines (ends : List (Vec3 α)) (weight : α) : Checked α (Goal α) := do
  requireEven (.goal .parallelLines) ends
  requireWeight (.goal .parallelLines) weight
  return ofAim .parallelLines ends weight

/-- Aligns a segment with a direction, in either sense. -/
def direction (first last along : Vec3 α) (weight : α) : Checked α (Goal α) := do
  requireWeight (.goal .direction) weight
  return ofAim (.direction (← checkedDirection along)) [first, last] weight

/-- Keeps the angle at `vertex` between the arms to `a` and `c`. -/
def angle (a vertex c : Vec3 α) (size weight : α) : Checked α (Goal α) := do
  requireWeight (.goal .angle) weight
  checkAngle size
  return ofAim (.angle size) [a, vertex, c] weight

/-- Keeps the angle at which the nodes start, or none if an arm is almost zero. -/
def currentAngle (a vertex c : Vec3 α) (weight : α) : Checked α (Goal α) :=
  angle a vertex c ((AngleAtVertex.between (a - vertex) (c - vertex)).getD 0) weight

def colinear (points : List (Vec3 α)) (weight : α) : Checked α (Goal α) :=
  ofNodes .colinear 3 points weight

def coplanar (points : List (Vec3 α)) (weight : α) : Checked α (Goal α) :=
  ofNodes .coplanar 4 points weight

def cocircular (points : List (Vec3 α)) (weight : α) : Checked α (Goal α) :=
  ofNodes .cocircular 4 points weight

def cospherical (points : List (Vec3 α)) (weight : α) : Checked α (Goal α) :=
  ofNodes .cospherical 5 points weight

def coincident (points : List (Vec3 α)) (weight : α) : Checked α (Goal α) :=
  ofNodes .coincident 2 points weight

def onLine (points : List (Vec3 α)) (line : Line α) (weight : α) : Checked α (Goal α) :=
  ofNodes (.onLine line) 1 points weight

def onPlane (points : List (Vec3 α)) (plane : Plane α) (weight : α) : Checked α (Goal α) :=
  ofNodes (.onPlane plane) 1 points weight

def onCurve (points : List (Vec3 α)) (curve : Shape α) (weight : α) : Checked α (Goal α) :=
  ofNodes (.onCurve curve) 1 points weight

def onSurface (points : List (Vec3 α)) (surface : Shape α) (weight : α) : Checked α (Goal α) :=
  ofNodes (.onSurface surface) 1 points weight

/-- Keeps nodes at or above a height. -/
def floor (points : List (Vec3 α)) (height weight : α) : Checked α (Goal α) := do
  requireAtLeast (.goal .floor) 1 points
  requireFinite (.goal .floor) "height" height
  requireWeight (.goal .floor) weight
  return ofAim (.floor height) points weight

/-- Keeps spheres around the nodes from overlapping. -/
def sphereCollision (centers : List (Vec3 α)) (radius weight : α) : Checked α (Goal α) := do
  requireAtLeast (.goal .sphereCollision) 2 centers
  requireNonNegative (.goal .sphereCollision) "radius" radius
  requireWeight (.goal .sphereCollision) weight
  return ofAim (.sphereCollision radius) centers weight

/-- Keeps spheres around the nodes off fixed segments. -/
def sphereStaticLineCollision (centers : List (Vec3 α)) (segments : List (Vec3 α × Vec3 α))
    (radius weight : α) : Checked α (Goal α) := do
  requireAtLeast (.goal .sphereStaticLineCollision) 1 centers
  requireNonNegative (.goal .sphereStaticLineCollision) "radius" radius
  requireWeight (.goal .sphereStaticLineCollision) weight
  return ofAim (.sphereStaticLineCollision segments radius) centers weight

/-- Keeps convex polygons of nodes from overlapping in the horizontal plane. -/
def convexPolygonCollision (polygons : List (List (Vec3 α))) (weight : α) :
    Checked α (Goal α) := do
  if polygons.length < 2 then
    throw (.invalidParameter (.goal .convexPolygonCollision) (.tooFewPolygons polygons.length))
  requireWeight (.goal .convexPolygonCollision) weight
  polygons.forM (requireAtLeast (.goal .convexPolygonCollision) 3)
  return ofAim (.convexPolygonCollision (polygons.map List.length)) polygons.flatten weight

/-- Keeps nodes inside a fixed convex polygon of either winding in the horizontal plane. -/
def convexPolygonContainment (points boundary : List (Vec3 α)) (weight : α) :
    Checked α (Goal α) := do
  requireAtLeast (.goal .convexPolygonContainment) 1 points
  requireAtLeast (.goal .convexPolygonContainment) 3 boundary
  requireWeight (.goal .convexPolygonContainment) weight
  let plan := boundary.map Vec2.ofVec3
  let area := Polygon.doubleArea plan
  if Scalar.abs area < 1e-12 then
    throw (.invalidParameter (.goal .convexPolygonContainment) .zeroArea)
  let counterClockwise := if area < 0 then plan.reverse else plan
  return ofAim (.convexPolygonContainment counterClockwise) points weight

/-- Inflates a mesh with a pressure. -/
def constantPressure (vertices : List (Vec3 α)) (faces : List Face) (pressure weight : α) :
    Checked α (Goal α) := do
  checkMesh .constantPressure vertices faces
  requireFinite (.goal .constantPressure) "pressure" pressure
  requireWeight (.goal .constantPressure) weight
  return ofAim (.constantPressure faces pressure) vertices weight

/-- Inflates a mesh with a fixed amount of gas. -/
def constantVolumePressure (vertices : List (Vec3 α)) (faces : List Face) (amount weight : α) :
    Checked α (Goal α) := do
  checkMesh .constantVolumePressure vertices faces
  requireFinite (.goal .constantVolumePressure) "volume_constant" amount
  requireWeight (.goal .constantVolumePressure) weight
  return ofAim (.constantVolumePressure faces amount) vertices weight

/-- Loads a mesh with a wind. -/
def directionalWind (vertices : List (Vec3 α)) (faces : List Face) (wind : Vec3 α)
    (weight : α) : Checked α (Goal α) := do
  checkMesh .directionalWind vertices faces
  requireFinitePoint (.goal .directionalWind) "wind" wind
  requireWeight (.goal .directionalWind) weight
  return ofAim (.directionalWind faces wind) vertices weight

/-- Gives the nodes a shape, whose points are listed in the same order. -/
def shapeMatching (points shape : List (Vec3 α)) (allowScaling : Bool) (weight : α) :
    Checked α (Goal α) := do
  requireAtLeast (.goal .shapeMatching) 2 points
  requireWeight (.goal .shapeMatching) weight
  if points.length != shape.length then
    throw (.invalidParameter (.goal .shapeMatching) (.unequalShape points.length shape.length))
  return ofAim (.shapeMatching (TargetShape.ofPoints shape) allowScaling) points weight

end Relaxation.Goal
