/-!
# Kinds of goals

`label` names a kind in reports and error messages, `tag` selects it in a goal description.
-/

namespace Relaxation

inductive GoalKind where
  | anchor
  | force
  | length
  | clampLength
  | equalLengths
  | parallelLines
  | direction
  | angle
  | colinear
  | coplanar
  | cocircular
  | cospherical
  | coincident
  | onLine
  | onPlane
  | onCurve
  | onSurface
  | floor
  | sphereCollision
  | sphereStaticLineCollision
  | convexPolygonCollision
  | convexPolygonContainment
  | constantPressure
  | constantVolumePressure
  | directionalWind
  | shapeMatching
  deriving Repr, DecidableEq

namespace GoalKind

def all : List GoalKind :=
  [anchor, force, length, clampLength, equalLengths, parallelLines, direction, angle, colinear,
    coplanar, cocircular, cospherical, coincident, onLine, onPlane, onCurve, onSurface, floor,
    sphereCollision, sphereStaticLineCollision, convexPolygonCollision, convexPolygonContainment,
    constantPressure, constantVolumePressure, directionalWind, shapeMatching]

def label : GoalKind → String
  | anchor => "AnchorGoal"
  | force => "ForceGoal"
  | length => "LengthGoal"
  | clampLength => "ClampLengthGoal"
  | equalLengths => "EqualLengthsGoal"
  | parallelLines => "ParallelLinesGoal"
  | direction => "DirectionGoal"
  | angle => "AngleGoal"
  | colinear => "CoLinearGoal"
  | coplanar => "CoPlanarGoal"
  | cocircular => "CoCircularGoal"
  | cospherical => "CoSphericalGoal"
  | coincident => "CoincidentGoal"
  | onLine => "OnLineGoal"
  | onPlane => "OnPlaneGoal"
  | onCurve => "OnCurveGoal"
  | onSurface => "OnSurfaceGoal"
  | floor => "FloorGoal"
  | sphereCollision => "SphereCollisionGoal"
  | sphereStaticLineCollision => "SphereStaticLineCollisionGoal"
  | convexPolygonCollision => "ConvexPolygonCollisionGoal"
  | convexPolygonContainment => "ConvexPolygonContainmentGoal"
  | constantPressure => "ConstantPressureGoal"
  | constantVolumePressure => "ConstantVolumePressureGoal"
  | directionalWind => "DirectionalWindGoal"
  | shapeMatching => "ShapeMatchingGoal"

def tag : GoalKind → String
  | anchor => "anchor"
  | force => "force"
  | length => "length"
  | clampLength => "clamp_length"
  | equalLengths => "equal_lengths"
  | parallelLines => "parallel_lines"
  | direction => "direction"
  | angle => "angle"
  | colinear => "colinear"
  | coplanar => "coplanar"
  | cocircular => "cocircular"
  | cospherical => "cospherical"
  | coincident => "coincident"
  | onLine => "on_line"
  | onPlane => "on_plane"
  | onCurve => "on_curve"
  | onSurface => "on_surface"
  | floor => "floor"
  | sphereCollision => "sphere_collision"
  | sphereStaticLineCollision => "sphere_static_line_collision"
  | convexPolygonCollision => "convex_polygon_collision"
  | convexPolygonContainment => "convex_polygon_containment"
  | constantPressure => "constant_pressure"
  | constantVolumePressure => "constant_volume_pressure"
  | directionalWind => "directional_wind"
  | shapeMatching => "shape_matching"

def ofLabel? (s : String) : Option GoalKind := all.find? (·.label == s)

def ofTag? (s : String) : Option GoalKind := all.find? (·.tag == s)

end GoalKind
end Relaxation
