import Relaxation.Description.Basic

/-!
# Building scenarios

A description is built goal by goal and then binder by binder, in order. The first entry that is
refused decides the fault.
-/

namespace Relaxation

variable {α : Type} [Scalar α]

def SurfaceDescription.build : SurfaceDescription α → Checked α (Shape α)
  | plane origin normal => return .plane (← Plane.make origin normal)
  | sphere center radius => return .sphere ⟨center, radius⟩
  | mesh vertices faces => return .mesh (← TriangleMesh.make vertices faces)

def GoalDescription.build : GoalDescription α → Checked α (Goal α)
  | anchor position target weight => Goal.anchor position (target.getD position) weight
  | force points push weight => Goal.force points push weight
  | length first last (some rest) weight => Goal.length first last rest weight
  | length first last none weight => Goal.currentLength first last weight
  | clampLength first last min max weight => Goal.clampLength first last min max weight
  | equalLengths ends weight => Goal.equalLengths ends weight
  | parallelLines ends weight => Goal.parallelLines ends weight
  | direction first last along weight => Goal.direction first last along weight
  | angle a vertex c (some size) weight => Goal.angle a vertex c size weight
  | angle a vertex c none weight => Goal.currentAngle a vertex c weight
  | colinear points weight => Goal.colinear points weight
  | coplanar points weight => Goal.coplanar points weight
  | cocircular points weight => Goal.cocircular points weight
  | cospherical points weight => Goal.cospherical points weight
  | coincident points weight => Goal.coincident points weight
  | onLine points origin along weight => do
    Goal.onLine points (← Line.make origin along) weight
  | onPlane points origin normal weight => do
    Goal.onPlane points (← Plane.make origin normal) weight
  | onCurve points curve closed weight => do
    Goal.onCurve points (.polyline (← Polyline.make curve closed)) weight
  | onSurface points surface weight => do Goal.onSurface points (← surface.build) weight
  | floor points height weight => Goal.floor points height weight
  | sphereCollision centers radius weight => Goal.sphereCollision centers radius weight
  | sphereStaticLineCollision centers segments radius weight =>
    Goal.sphereStaticLineCollision centers segments radius weight
  | convexPolygonCollision polygons weight => Goal.convexPolygonCollision polygons weight
  | convexPolygonContainment points boundary weight =>
    Goal.convexPolygonContainment points boundary weight
  | constantPressure vertices faces pressure weight =>
    Goal.constantPressure vertices faces pressure weight
  | constantVolumePressure vertices faces amount weight =>
    Goal.constantVolumePressure vertices faces amount weight
  | directionalWind vertices faces wind weight =>
    Goal.directionalWind vertices faces wind weight
  | shapeMatching points shape allowScaling weight =>
    Goal.shapeMatching points shape allowScaling weight

def BinderDescription.build : BinderDescription α → Checked α (Binder α)
  | points starts => Binder.points starts
  | polyline starts closed => Binder.polyline starts closed
  | mesh vertices faces => Binder.mesh vertices faces

/-- A solver with the bounds to run it with. -/
structure Scenario (α : Type) where
  solver : Solver α
  execution : ExecutionBounds α
  deriving Repr

namespace Scenario

def addGoal (s : Solver α) (d : GoalDescription α) : Checked α (Solver α) := do
  s.addGoal (← d.build)

def addBinder (s : Solver α) (d : BinderDescription α) : Checked α (Solver α) :=
  return s.addBinder (← d.build)

def build (d : ScenarioDescription α) : Checked α (Scenario α) := do
  let solver ← d.goals.foldlM addGoal (Solver.new d.solver.normalized)
  let solver ← d.binders.foldlM addBinder solver
  return ⟨solver, d.execution⟩

def run (s : Scenario α) : Scenario α × ExecutionReport α :=
  let (solver, report) := s.solver.execute s.execution
  (⟨solver, s.execution⟩, report)

end Scenario
end Relaxation
