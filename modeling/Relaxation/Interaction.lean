import Relaxation.Node
import Relaxation.Shape

/-!
# Interaction with a pointer

Commands queue up and take effect all at once, in order, at the start of the next iteration. They
move a pointer ray, grab the node nearest to it, and let go. The node held is pulled toward the
ray while the solver runs.
-/

namespace Relaxation

inductive Command (α : Type) where
  | pointerMoved (ray : Ray α)
  | grab
  | release
  | setHandle (node : Option Nat)
  deriving Repr

structure Interaction (α : Type) where
  queue : List (Command α)
  pointer : Option (Ray α)
  /-- The node nearest to the pointer when the commands last took effect. -/
  nearest : Option Nat
  /-- The node held. -/
  handle : Option Nat
  deriving Repr

namespace Interaction

variable {α : Type} [Scalar α]

def empty : Interaction α := ⟨[], none, none, none⟩

def send (command : Command α) (x : Interaction α) : Interaction α :=
  { x with queue := x.queue ++ [command] }

/-- The first node of least squared distance to a ray. -/
def nearestNode (pool : Pool α) (ray : Ray α) : Option Nat :=
  let distances := pool.toList.zipIdx.map fun (n, i) => (i, ray.distSq n.position)
  (Scalar.firstMinBy Prod.snd distances).map Prod.fst

/-- The effect of one command. -/
def obey (pool : Pool α) (x : Interaction α) : Command α → Interaction α
  | .pointerMoved ray => { x with pointer := some ray, nearest := nearestNode pool ray }
  | .grab =>
    let nearest := x.pointer.bind (nearestNode pool)
    { x with nearest, handle := nearest }
  | .release => { x with handle := none }
  | .setHandle node => { x with handle := node.filter (· < pool.size) }

/-- Looks for the nearest node again, and lets go of a node that is no longer there. -/
def refresh (pool : Pool α) (x : Interaction α) : Interaction α :=
  { x with
    nearest :=
      match x.pointer with
      | some ray => nearestNode pool ray
      | none => x.nearest
    handle := x.handle.filter (· < pool.size) }

/-- Lets every queued command take effect. -/
def drain (pool : Pool α) (x : Interaction α) : Interaction α :=
  refresh pool (x.queue.foldl (obey pool) { x with queue := [] })

/-- The node held and the point of the ray that it is pulled toward. -/
def target (pool : Pool α) (x : Interaction α) : Option (Nat × Vec3 α) := do
  let i ← x.handle
  let ray ← x.pointer
  let node ← pool[i]?
  return (i, ray.closestPoint node.position)

/-- Forgets the pointer and the node held, and drops the queue. -/
def reset (_ : Interaction α) : Interaction α := empty

end Interaction
end Relaxation
