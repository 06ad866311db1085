import Relaxation.Goal.Response

/-!
# Goals for pairs of nodes

Each of these goals works on the pairs of its nodes: it measures the vector from the first node
of a pair to the second and finds the correction that brings the vector to its target. Half of
the correction goes to each end, so the midpoint stays.
-/

namespace Relaxation.Pairwise

variable {α : Type} [Scalar α]

def deltas (ps : List (Vec3 α)) : List (Vec3 α) := (pairs ps).map fun (a, b) => b - a

/-- Corrects every pair by a rule for the vector between its nodes. -/
def respond (rule : Vec3 α → Option (Vec3 α)) (ps : List (Vec3 α)) : Response α :=
  (deltas ps).flatMap fun delta => Response.split (rule delta)

/-- The correction that brings a vector to a given length; a vector shorter than `1e-12` has no
direction to correct it along. -/
def toLength (target : α) (delta : Vec3 α) : Option (Vec3 α) :=
  if delta.norm < 1e-12 then none else some (delta * (1 - target / delta.norm))

/-- The correction that brings the length of a vector into `[min, max]`, none when it is
there. -/
def intoRange (min max : α) (delta : Vec3 α) : Option (Vec3 α) :=
  let target := Scalar.clamp delta.norm min max
  if target == delta.norm then none else toLength target delta

/-- The correction that turns a vector into the direction of a unit vector or its opposite,
whichever is nearer. -/
def ontoDirection (direction delta : Vec3 α) : Option (Vec3 α) :=
  if delta.almostZero 1e-12 then none
  else
    let sense : α := if delta.dot direction < 0 then -1 else 1
    some (delta - direction * (sense * delta.norm))

def meanLength (ps : List (Vec3 α)) : α :=
  let lengths := (deltas ps).map Vec3.norm
  Scalar.sum lengths / (lengths.length : α)

/-- The mean of the unit vectors along the given vectors, each turned to the side of the first;
vectors that are almost zero do not count. -/
def commonDirection (vs : List (Vec3 α)) : Option (Vec3 α) :=
  let units := (vs.filter (!Vec3.almostZero 1e-12 ·)).map Vec3.normalize
  match units with
  | [] => none
  | first :: _ =>
    let total := Vec3.sum (units.map fun u => if u.dot first < 0 then -u else u)
    if total.almostZero 1e-12 then none else some total.normalize

/-- Turns all pairs into their common direction. Without one none of `n` nodes is touched. -/
def parallelResponse (n : Nat) (ps : List (Vec3 α)) : Response α :=
  match commonDirection (deltas ps) with
  | some direction => respond (ontoDirection direction) ps
  | none => Response.idle n

/-- The lengths of the vectors between the nodes of each pair. -/
def lengths (ps : List (Vec3 α)) : List (Reading α) :=
  (deltas ps).map fun delta => .scalar delta.norm

/-- The angles between the lines through each pair and a unit vector; a pair that almost
coincides has none. -/
def anglesTo (direction : Vec3 α) (ps : List (Vec3 α)) : List (Reading α) :=
  ((deltas ps).filter (!Vec3.almostZero 1e-12 ·)).map fun delta =>
    .scalar (Scalar.acos (Scalar.min (Scalar.abs (delta.normalize.dot direction)) 1))

end Relaxation.Pairwise
