import Relaxation.Goal.Basic
import Relaxation.Params

/-!
# Tallies

The moves that the goals ask of one node are summed up in its tally, each times its weight, and
the node moves by their weighted mean.
-/

namespace Relaxation

/-- The weighted moves asked of one node, summed up. -/
structure Tally (α : Type) where
  move : Vec3 α
  weight : α
  deriving Repr

namespace Tally

variable {α : Type} [Scalar α]

def zero : Tally α := ⟨0, 0⟩

def add (move : Vec3 α) (weight : α) (t : Tally α) : Tally α :=
  ⟨t.move + move * weight, t.weight + weight⟩

end Tally

namespace Node

variable {α : Type} [Scalar α]

def drift (n : Node α) : Node α := { n with position := n.position + n.velocity }

/-- Moves a node by the mean of what is asked of it. With momentum the move adds to the velocity,
and the sum is damped if the move opposes the velocity before; without, the velocity is the
move. -/
def move (params : Params α) (t : Tally α) (n : Node α) : Node α :=
  if t.weight == 0 then
    if params.momentum then n else { n with velocity := 0 }
  else
    let step := t.move / t.weight
    let velocity :=
      if params.momentum then
        let sum := n.velocity + step
        if n.velocity.dot step < 0 then sum * params.damping else sum
      else step
    { n with position := n.position + step, velocity }

end Node

namespace Goal

variable {α : Type} [Scalar α]

/-- Adds the moves of a goal to the tallies of its nodes. -/
def tally (g : Goal α) (tallies : Array (Tally α)) : Array (Tally α) :=
  (g.nodes.zip (g.moves.zip g.weights)).foldl
    (fun tallies (i, move, weight) => tallies.modify i (Tally.add move weight))
    tallies

end Goal
end Relaxation
