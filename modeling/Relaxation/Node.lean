import Relaxation.Geometry.Vec3

/-!
# Nodes

A node is a point mass shared by every goal that refers to it. Goals and binders refer to nodes
by their places in a pool, which only ever grows at its end.
-/

namespace Relaxation

structure Node (α : Type) where
  start : Vec3 α
  position : Vec3 α
  velocity : Vec3 α
  deriving Repr, DecidableEq

abbrev Pool (α : Type) := Array (Node α)

variable {α : Type} [Scalar α]

namespace Node

/-- A node at rest where it starts. -/
def atRest (p : Vec3 α) : Node α := ⟨p, p, 0⟩

/-- The node back where it started, at rest. -/
def reset (n : Node α) : Node α := atRest n.start

/-- The squared speed. -/
def kineticEnergy (n : Node α) : α := n.velocity.normSq

end Node

namespace Pool

/-- The position of a node, the origin if there is no such node. -/
def position (pool : Pool α) (i : Nat) : Vec3 α := (pool[i]?.map Node.position).getD 0

def positions (pool : Pool α) (indices : List Nat) : List (Vec3 α) := indices.map pool.position

def kineticEnergy (pool : Pool α) : α := Scalar.sum (pool.toList.map Node.kineticEnergy)

end Pool
end Relaxation
