import Relaxation.Solver.Execute

/-!
# Cloth

A square cloth on the integer grid: neighbours keep their distance, two corners of one edge are
held in place, and gravity pulls on every node.
-/

namespace Relaxation.Cloth

variable {α : Type} [Scalar α]

def gridPoint (i j : Nat) : Vec3 α := ⟨(i : α), (j : α), 0⟩

/-- The neighbours of a grid point at the next row and column of an `n × n` grid. -/
def neighbours (n i j : Nat) : List (Nat × Nat) :=
  (if i + 1 < n then [(i + 1, j)] else []) ++ (if j + 1 < n then [(i, j + 1)] else [])

/-- The points of an `n × n` grid, row by row. -/
def gridIndices (n : Nat) : List (Nat × Nat) :=
  (List.range n).flatMap fun i => (List.range n).map fun j => (i, j)

/-- The edges of an `n × n` grid, each from the point that comes first. -/
def edges (n : Nat) : List ((Nat × Nat) × (Nat × Nat)) :=
  (gridIndices n).flatMap fun p => (neighbours n p.1 p.2).map (p, ·)

def addEdge (s : Solver α) (e : (Nat × Nat) × (Nat × Nat)) : Checked α (Solver α) := do
  s.addGoal (← Goal.currentLength (gridPoint e.1.1 e.1.2) (gridPoint e.2.1 e.2.2) 1)

def addCorner (s : Solver α) (i j : Nat) : Checked α (Solver α) := do
  s.addGoal (← Goal.anchor (gridPoint i j) (gridPoint i j) 100.0)

/-- The pull of gravity. -/
def gravity : Vec3 α := ⟨0, 0, -0.01⟩

/-- The solver for an `n × n` cloth. -/
def make (n : Nat) : Checked α (Solver α) := do
  let s ← (edges n).foldlM addEdge (Solver.new Params.default)
  let s ← addCorner s 0 (n - 1)
  let s ← addCorner s (n - 1) (n - 1)
  let points := (gridIndices n).map fun (i, j) => gridPoint i j
  s.addGoal (← Goal.force points gravity 1)

end Relaxation.Cloth
