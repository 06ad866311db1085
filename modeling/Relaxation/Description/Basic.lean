import Relaxation.Geometry.Face
import Relaxation.Goal.Kind
import Relaxation.Params
import Relaxation.Solver.Execute

/-!
# Descriptions

What a scenario asks for, before anything is checked: goals and binders by their parameters,
with the settings of the solver and the bounds of a run.
-/

namespace Relaxation

inductive SurfaceDescription (α : Type) where
  | plane (origin normal : Vec3 α)
  | sphere (center : Vec3 α) (radius : α)
  | mesh (vertices : List (Vec3 α)) (faces : List Face)
  deriving Repr

/-- A goal to be made. Optional parameters are taken from the starting positions. -/
inductive GoalDescription (α : Type) where
  | anchor (position : Vec3 α) (target : Option (Vec3 α)) (weight : α)
  | force (points : List (Vec3 α)) (push : Vec3 α) (weight : α)
  | length (first last : Vec3 α) (rest : Option α) (weight : α)
  | clampLength (first last : Vec3 α) (min max weight : α)
  | equalLengths (ends : List (Vec3 α)) (weight : α)
  | parallelLines (ends : List (Vec3 α)) (weight : α)
  | direction (first last along : Vec3 α) (weight : α)
  | angle (a vertex c : Vec3 α) (size : Option α) (weight : α)
  | colinear (points : List (Vec3 α)) (weight : α)
  | coplanar (points : List (Vec3 α)) (weight : α)
  | cocircular (points : List (Vec3 α)) (weight : α)
  | cospherical (points : List (Vec3 α)) (weight : α)
  | coincident (points : List (Vec3 α)) (weight : α)
  | onLine (points : List (Vec3 α)) (origin along : Vec3 α) (weight : α)
  | onPlane (points : List (Vec3 α)) (origin normal : Vec3 α) (weight : α)
  | onCurve (points curve : List (Vec3 α)) (closed : Bool) (weight : α)
  | onSurface (points : List (Vec3 α)) (surface : SurfaceDescription α) (weight : α)
  | floor (points : List (Vec3 α)) (height weight : α)
  | sphereCollision (centers : List (Vec3 α)) (radius weight : α)
  | sphereStaticLineCollision (centers : List (Vec3 α)) (segments : List (Vec3 α × Vec3 α))
      (radius weight : α)
  | convexPolygonCollision (polygons : List (List (Vec3 α))) (weight : α)
  | convexPolygonContainment (points boundary : List (Vec3 α)) (weight : α)
  | constantPressure (vertices : List (Vec3 α)) (faces : List Face) (pressure weight : α)
  | constantVolumePressure (vertices : List (Vec3 α)) (faces : List Face) (amount weight : α)
  | directionalWind (vertices : List (Vec3 α)) (faces : List Face) (wind : Vec3 α) (weight : α)
  | shapeMatching (points shape : List (Vec3 α)) (allowScaling : Bool) (weight : α)
  deriving Repr

inductive BinderDescription (α : Type) where
  | points (points : List (Vec3 α))
  | polyline (points : List (Vec3 α)) (closed : Bool)
  | mesh (vertices : List (Vec3 α)) (faces : List Face)
  deriving Repr

structure ScenarioDescription (α : Type) where
  solver : Params α
  execution : ExecutionBounds α
  goals : List (GoalDescription α)
  binders : List (BinderDescription α)
  deriving Repr

end Relaxation
