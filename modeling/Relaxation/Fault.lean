import Relaxation.Geometry.Face
import Relaxation.Goal.Kind

/-!
# Faults

What can go wrong when goals, shapes and binders are made, when a matrix is decomposed, and when
a background run is stopped. A fault names its cause and carries the offending values; its
wording is in `Relaxation.Fault.Message`. Degenerate positions met while relaxing are no fault:
the goal concerned sits the iteration out.
-/

namespace Relaxation

/-- The thing whose construction or use a fault is about. -/
inductive Part where
  | goal (kind : GoalKind)
  | line
  | plane
  | polyline
  | triangleMesh
  | ray
  | binder
  deriving Repr, DecidableEq

/-- What is wrong with a parameter. -/
inductive ParameterFault (α : Type) where
  | notFinite (what : String) (value : α)
  | negative (what : String) (value : α)
  | pointNotFinite (what : String) (point : Vec3 α)
  | invertedRange (min max : α)
  | zeroVector (what : String)
  | angleOutOfRange (angle : α)
  | tooFewPoints (got : Nat)
  | tooFewPolygons (got : Nat)
  | noFaces
  | zeroArea
  | unequalShape (nodes shape : Nat)
  deriving Repr

/-- Which of a goal's buffers differ in length from its starting positions. -/
inductive BufferFault where
  | responses (starts moves weights : Nat)
  | nodes (starts nodes : Nat)
  deriving Repr, DecidableEq

inductive Fault (α : Type) where
  | tooFewNodes (part : Part) (required got : Nat)
  | oddNodeCount (part : Part) (got : Nat)
  | invalidParameter (part : Part) (cause : ParameterFault α)
  | inconsistentGoal (kind : GoalKind) (cause : BufferFault)
  | faceOutOfRange (face vertex count : Nat)
  | svdShape (rows cols : Nat)
  | svdNoConvergence (index sweeps : Nat)
  | unknownNode (index : Nat)
  | stopTimeout (milliseconds : Nat)
  deriving Repr

/-- The outcome of an operation that may be refused. -/
abbrev Checked (α β : Type) := Except (Fault α) β

section Checks

variable {α : Type} [Scalar α]

def requireAtLeast (part : Part) (required : Nat) (points : List (Vec3 α)) : Checked α Unit :=
  if points.length < required then .error (.tooFewNodes part required points.length) else .ok ()

/-- The points are the ends of one or more segments. -/
def requireEven (part : Part) (points : List (Vec3 α)) : Checked α Unit :=
  if points.isEmpty || points.length % 2 != 0 then .error (.oddNodeCount part points.length)
  else .ok ()

def requireFinite (part : Part) (what : String) (value : α) : Checked α Unit :=
  if Scalar.isFinite value then .ok ()
  else .error (.invalidParameter part (.notFinite what value))

def requireNonNegative (part : Part) (what : String) (value : α) : Checked α Unit := do
  requireFinite part what value
  if value < 0 then .error (.invalidParameter part (.negative what value)) else .ok ()

/-- A weight is finite and not negative. -/
def requireWeight (part : Part) (weight : α) : Checked α Unit :=
  requireNonNegative part "weight" weight

def requireFinitePoint (part : Part) (what : String) (point : Vec3 α) : Checked α Unit :=
  if point.isFinite then .ok () else .error (.invalidParameter part (.pointNotFinite what point))

/-- Every corner of every face is one of `count` vertices. -/
def requireFaces (count : Nat) (faces : List Face) : Checked α Unit :=
  faces.zipIdx.forM fun (f, i) =>
    match f.strayCorner? count with
    | some vertex => .error (.faceOutOfRange i vertex count)
    | none => .ok ()

end Checks
end Relaxation
