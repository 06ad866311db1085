import Relaxation.Fault
import Relaxation.Goal.Aim
import Relaxation.Node

/-!
# Goals

A goal is an aim with a weight, the starting positions of its nodes and, once it is attached,
their places in the pool. `moves` and `weights` hold its latest response: a node that the goal
does not touch has a zero move and a zero weight, any other has the goal's weight. Their lengths
never change.
-/

namespace Relaxation

structure Goal (α : Type) where
  aim : Aim α
  weight : α
  starts : List (Vec3 α)
  nodes : List Nat
  moves : List (Vec3 α)
  weights : List α
  deriving Repr

namespace Response

variable {α : Type} [Scalar α]

def moves (r : Response α) : List (Vec3 α) := r.map (·.getD 0)

def weights (weight : α) (r : Response α) : List α :=
  r.map fun move => if move.isSome then weight else 0

end Response

namespace Goal

variable {α : Type} [Scalar α]

/-- A goal that is not yet attached and has not yet responded. -/
def ofAim (aim : Aim α) (starts : List (Vec3 α)) (weight : α) : Goal α :=
  { aim, weight, starts
    nodes := []
    moves := starts.map fun _ => 0
    weights := starts.map fun _ => weight }

def kind (g : Goal α) : GoalKind := g.aim.kind

def nodeCount (g : Goal α) : Nat := g.starts.length

def positions (g : Goal α) (pool : Pool α) : List (Vec3 α) := pool.positions g.nodes

/-- The goal with its response to the current positions of its nodes. -/
def compute (pool : Pool α) (g : Goal α) : Goal α :=
  let response := g.aim.respond g.nodeCount (g.positions pool)
  { g with
    moves := overwrite response.moves g.moves
    weights := overwrite (response.weights g.weight) g.weights }

/-- The goal with a response that touches no node. -/
def deactivate (g : Goal α) : Goal α :=
  { g with moves := g.moves.map fun _ => 0, weights := g.weights.map fun _ => 0 }

def readings (g : Goal α) (pool : Pool α) : List (Reading α) :=
  g.aim.readings g.nodeCount (g.positions pool)

/-- Checks that the buffers are as long as the list of starting positions; the list of nodes may
also be empty, for a goal that is not attached. -/
def validate (g : Goal α) : Checked α Unit :=
  let n := g.nodeCount
  if g.moves.length != n || g.weights.length != n then
    .error (.inconsistentGoal g.kind (.responses n g.moves.length g.weights.length))
  else if !g.nodes.isEmpty && g.nodes.length != n then
    .error (.inconsistentGoal g.kind (.nodes n g.nodes.length))
  else .ok ()

end Goal
end Relaxation
