import Relaxation.Solver.Basic

/-!
# Iterating

One iteration lets the queued commands take effect, drifts the nodes by their velocities when
momentum is on, lets every goal respond to the positions reached, and moves each node by the
mean of the moves asked for, weighted by their weights. A node that nobody asks to move stays.
-/

namespace Relaxation.Solver

variable {α : Type} [Scalar α]

/-- The weight of the pull on a node held by the pointer. -/
def handleWeight : α := 30.0

/-- The tallies of the goals' moves over all nodes, each started anew. -/
def collect (s : Solver α) : Array (Tally α) :=
  s.goals.foldl (fun tallies g => g.tally tallies) (s.tallies.map fun _ => Tally.zero)

/-- Adds the pull of the pointer, when there is one. -/
def pull (s : Solver α) (tallies : Array (Tally α)) : Array (Tally α) :=
  if s.params.pointerPull then
    match s.interaction.target s.nodes with
    | some (i, target) =>
      tallies.modify i (Tally.add (target - s.nodes.position i) handleWeight)
    | none => tallies
  else tallies

/-- Moves every node by its tally. -/
def moveNodes (s : Solver α) (tallies : Array (Tally α)) : Solver α :=
  { s with
    tallies
    nodes := s.nodes.mapIdx fun i n =>
      match tallies[i]? with
      | some t => n.move s.params t
      | none => n }

def drain (s : Solver α) : Solver α := { s with interaction := s.interaction.drain s.nodes }

def drift (s : Solver α) : Solver α :=
  if s.params.momentum then { s with nodes := s.nodes.map Node.drift } else s

def compute (s : Solver α) : Solver α := { s with goals := s.goals.map (Goal.compute s.nodes) }

def iterate (s : Solver α) : Solver α :=
  let s := s.drain.drift.compute
  { s.moveNodes (s.pull s.collect) with iteration := s.iteration + 1 }

def iterateN (n : Nat) (s : Solver α) : Solver α := Nat.repeat iterate n s

/-- One background tick. A tick that is bounded by time has at least the one iteration that it
has here. -/
def tick (s : Solver α) : Solver α := s.iterateN (max s.params.iterationCount 1)

end Relaxation.Solver
