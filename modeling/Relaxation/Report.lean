import Relaxation.Decimal.Notation
import Relaxation.Scalar.Binary64
import Relaxation.Solver.Execute

/-!
# Reports

What is printed of a solver: a line for each node with its position, and a line for each goal
that has something to report. Positions have six places, and the coordinates of nodes stand in
columns.
-/

namespace Relaxation.Report

/-- The text of a point in brackets, given how its coordinates are written. -/
def pointText (coordinate : Float → String) (p : Vec3 Binary64) : String :=
  "[" ++ ", ".intercalate ([p.x.float, p.y.float, p.z.float].map coordinate) ++ "]"

def nodeLine (p : Vec3 Binary64) (i : Nat) : String :=
  "node " ++ Decimal.blankPadded 4 (toString i) ++ ": " ++
    pointText (fun x => Decimal.blankPadded 10 (Decimal.fixed 6 x)) p

def readingText : Reading Binary64 → String
  | .scalar x => Decimal.fixed 6 x.float
  | .point p | .vector p => pointText (Decimal.fixed 6) p

/-- The line of a goal, none for a goal that reports nothing. -/
def goalLine? (goal : GoalKind × List (Reading Binary64)) : Option String :=
  if goal.2.isEmpty then none
  else some (goal.1.label ++ ": " ++ " ".intercalate (goal.2.map readingText))

/-- The lines about the nodes and goals of a solver. -/
def solverLines (s : Solver Binary64) : List String :=
  s.positions.zipIdx.map (fun (p, i) => nodeLine p i) ++ s.readings.filterMap goalLine?

/-- The line about how a run ended. -/
def summary (r : ExecutionReport Binary64) : String :=
  "iterations = " ++ toString r.iterations ++ ", kinetic energy = " ++
    Decimal.scientific 3 r.kineticEnergy.float ++ ", converged = " ++ toString r.converged

end Relaxation.Report
