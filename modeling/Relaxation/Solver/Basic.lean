import Relaxation.Binder
import Relaxation.Goal.Change
import Relaxation.Interaction
import Relaxation.Solver.Tally

/-!
# The solver and its setup

A solver holds a pool of nodes and the goals and binders attached to it. Attaching maps each
starting position to the first node closer than the merge threshold, or to a new node at the end
of the pool. A goal that is refused leaves the solver as it was.
-/

namespace Relaxation

structure Solver (α : Type) where
  params : Params α
  nodes : Pool α
  /-- What the latest iteration asked of each node; a slot for every node of the pool. -/
  tallies : Array (Tally α)
  goals : Array (Goal α)
  binders : Array (Binder α)
  /-- The iterations run since the last reset. -/
  iteration : Nat
  interaction : Interaction α
  deriving Repr

/-- The place of the first node closer to a position than the threshold. -/
def Pool.firstWithin? {α : Type} [Scalar α] (threshold : α) (pool : Pool α) (p : Vec3 α) :
    Option Nat :=
  pool.findIdx? fun n => n.position.distSq p < threshold * threshold

namespace Solver

variable {α : Type} [Scalar α]

def new (params : Params α) : Solver α :=
  { params
    nodes := #[]
    tallies := #[]
    goals := #[]
    binders := #[]
    iteration := 0
    interaction := Interaction.empty }

/-- The solver with a node at rest at the end of the pool, and a tally for it. -/
def addNode (s : Solver α) (p : Vec3 α) : Solver α :=
  { s with nodes := s.nodes.push (Node.atRest p), tallies := s.tallies.push Tally.zero }

/-- The solver with a node for a position, and the place of that node. -/
def place (threshold : α) (s : Solver α) (p : Vec3 α) : Solver α × Nat :=
  match s.nodes.firstWithin? threshold p with
  | some i => (s, i)
  | none => (s.addNode p, s.nodes.size)

/-- The solver with nodes for several positions, and their places in order. -/
def placeAll (threshold : α) : Solver α → List (Vec3 α) → Solver α × List Nat
  | s, [] => (s, [])
  | s, p :: ps =>
    let (s, i) := s.place threshold p
    let (s, is) := placeAll threshold s ps
    (s, i :: is)

/-- Attaches a goal, which must have a starting position and consistent buffers. -/
def addGoalWithThreshold (s : Solver α) (g : Goal α) (threshold : α) : Checked α (Solver α) := do
  if g.nodeCount == 0 then throw (.tooFewNodes (.goal g.kind) 1 0)
  g.validate
  let (s, places) := s.placeAll threshold g.starts
  return { s with goals := s.goals.push { g with nodes := places } }

def addGoal (s : Solver α) (g : Goal α) : Checked α (Solver α) :=
  s.addGoalWithThreshold g s.params.mergeThreshold

/-- Attaches goals up to the first that is refused; gives the solver with the goals attached and
the fault, if any. -/
def addGoals (s : Solver α) : List (Goal α) → Solver α × Option (Fault α)
  | [] => (s, none)
  | g :: gs =>
    match s.addGoal g with
    | .ok s => addGoals s gs
    | .error f => (s, some f)

def addBinderWithThreshold (s : Solver α) (b : Binder α) (threshold : α) : Solver α :=
  let (s, places) := s.placeAll threshold b.starts
  { s with binders := s.binders.push { b with nodes := places } }

def addBinder (s : Solver α) (b : Binder α) : Solver α :=
  s.addBinderWithThreshold b s.params.mergeThreshold

def addBinders (s : Solver α) (bs : List (Binder α)) : Solver α := bs.foldl addBinder s

/-- Changes the goal at a place; `none` when there is no goal of the amendment's kind. -/
def changeGoal (s : Solver α) (i : Nat) (a : Amendment α) (weight : Option α) :
    Option (Checked α (Solver α)) :=
  match s.goals[i]? with
  | none => none
  | some g =>
    if g.kind = a.kind then
      some ((g.change a weight).map fun g => { s with goals := s.goals.setIfInBounds i g })
    else none

/-- Queues a command for the next iteration. -/
def send (s : Solver α) (command : Command α) : Solver α :=
  { s with interaction := s.interaction.send command }

/-- The positions of all nodes. -/
def positions (s : Solver α) : List (Vec3 α) := s.nodes.toList.map Node.position

def nodePosition (s : Solver α) (i : Nat) : Checked α (Vec3 α) :=
  match s.nodes[i]? with
  | some n => .ok n.position
  | none => .error (.unknownNode i)

def kineticEnergy (s : Solver α) : α := s.nodes.kineticEnergy

/-- The kinds of all goals with what they report. -/
def readings (s : Solver α) : List (GoalKind × List (Reading α)) :=
  s.goals.toList.map fun g => (g.kind, g.readings s.nodes)

def geometry (s : Solver α) : List (BoundGeometry α) :=
  s.binders.toList.map (Binder.bind s.nodes)

/-- Puts every node back where it started. -/
def reset (s : Solver α) : Solver α :=
  { s with nodes := s.nodes.map Node.reset, iteration := 0 }

/-- Drops all nodes, goals, binders and commands; the settings stay. -/
def clear (s : Solver α) : Solver α := new s.params

end Solver
end Relaxation
