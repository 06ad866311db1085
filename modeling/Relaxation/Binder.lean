import Relaxation.Fault
import Relaxation.Node

/-!
# Binders

A binder ties output geometry to nodes. It asks for nodes as a goal does and shares them with
goals, but it never moves them; `Binder.bind` rebuilds the geometry from current positions.
-/

namespace Relaxation

inductive BinderKind where
  | points
  | polyline (closed : Bool)
  | mesh (faces : List Face)
  deriving Repr, DecidableEq

structure Binder (α : Type) where
  kind : BinderKind
  starts : List (Vec3 α)
  nodes : List Nat
  deriving Repr

/-- Geometry at current positions. -/
inductive BoundGeometry (α : Type) where
  | points (points : List (Vec3 α))
  | polyline (points : List (Vec3 α)) (closed : Bool)
  | mesh (vertices : List (Vec3 α)) (faces : List Face)
  deriving Repr

namespace Binder

variable {α : Type} [Scalar α]

def points (starts : List (Vec3 α)) : Checked α (Binder α) := do
  requireAtLeast .binder 1 starts
  return ⟨.points, starts, []⟩

def polyline (starts : List (Vec3 α)) (closed : Bool) : Checked α (Binder α) := do
  requireAtLeast .binder 2 starts
  return ⟨.polyline closed, starts, []⟩

/-- A mesh may have no faces, but those it has refer to its own vertices. -/
def mesh (starts : List (Vec3 α)) (faces : List Face) : Checked α (Binder α) := do
  requireAtLeast .binder 3 starts
  requireFaces starts.length faces
  return ⟨.mesh faces, starts, []⟩

def bind (pool : Pool α) (b : Binder α) : BoundGeometry α :=
  let current := pool.positions b.nodes
  match b.kind with
  | .points => .points current
  | .polyline closed => .polyline current closed
  | .mesh faces => .mesh current faces

end Binder
end Relaxation
