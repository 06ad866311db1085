import Relaxation.Fault
import Relaxation.Decimal.Notation
import Relaxation.Scalar.Binary64

/-!
# Wording of faults
-/

namespace Relaxation

def Part.label : Part → String
  | goal kind => kind.label
  | line => "Line"
  | plane => "Plane"
  | polyline => "Polyline"
  | triangleMesh => "TriangleMesh"
  | ray => "Ray"
  | binder => "GeometryBinder"

/-- A span of time in the largest unit of which it is at least one, a zero span in nanoseconds. -/
def spanText (milliseconds : Nat) : String :=
  if milliseconds == 0 then "0ns"
  else if milliseconds < 1000 then toString milliseconds ++ "ms"
  else
    let fraction := (Decimal.zeroPadded 3 (milliseconds % 1000)).toList
    let fraction := (fraction.reverse.dropWhile (· == '0')).reverse
    let point := if fraction.isEmpty then "" else "."
    toString (milliseconds / 1000) ++ point ++ String.ofList fraction ++ "s"

private def number (x : Binary64) : String := Decimal.plain x.float

private def pointText (p : Vec3 Binary64) : String :=
  "[" ++ ", ".intercalate ([p.x, p.y, p.z].map number) ++ "]"

def ParameterFault.message : ParameterFault Binary64 → String
  | notFinite what value => what ++ " must be finite, got " ++ number value
  | negative what value => what ++ " must be non-negative, got " ++ number value
  | pointNotFinite what point => what ++ " must be finite, got " ++ pointText point
  | invertedRange min max =>
    "min (" ++ number min ++ ") exceeds max (" ++ number max ++ ")"
  | zeroVector what => what ++ " must be non-zero"
  | angleOutOfRange angle => "angle must lie in [0, pi], got " ++ number angle
  | tooFewPoints got => "needs at least 2 points, got " ++ toString got
  | tooFewPolygons got => "needs at least 2 polygons, got " ++ toString got
  | noFaces => "mesh has no faces"
  | zeroArea => "boundary polygon has zero area"
  | unequalShape nodes shape =>
    toString nodes ++ " nodes but " ++ toString shape ++ " target shape points"

def BufferFault.message : BufferFault → String
  | responses starts moves weights =>
    toString starts ++ " starting positions, " ++ toString moves ++ " moves, " ++
      toString weights ++ " weights"
  | nodes starts indices =>
    toString starts ++ " starting positions, " ++ toString indices ++ " node indices"

namespace Fault

def message : Fault Binary64 → String
  | tooFewNodes part required got =>
    part.label ++ " requires at least " ++ toString required ++ " nodes, got " ++ toString got
  | oddNodeCount part got =>
    part.label ++ " requires an even number of nodes, got " ++ toString got
  | invalidParameter part cause =>
    "invalid parameter for " ++ part.label ++ ": " ++ cause.message
  | inconsistentGoal kind cause =>
    "goal " ++ kind.label ++ " has inconsistent buffers: " ++ cause.message
  | faceOutOfRange face vertex count =>
    "face " ++ toString face ++ " references vertex " ++ toString vertex ++ ", but only " ++
      toString count ++ " vertices exist"
  | svdShape rows cols =>
    "svd needs at least as many rows as columns, got " ++ toString rows ++ "x" ++ toString cols
  | svdNoConvergence index sweeps =>
    "svd did not converge for singular value " ++ toString index ++ " within " ++
      toString sweeps ++ " sweeps"
  | unknownNode index => "node index " ++ toString index ++ " is out of range"
  | stopTimeout milliseconds =>
    "background execution did not stop within " ++ spanText milliseconds

end Fault
end Relaxation
