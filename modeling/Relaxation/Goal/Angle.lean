import Relaxation.Geometry.Rotation
import Relaxation.Goal.Response

/-!
# The angle at a vertex

Of three nodes the second is the vertex. The bisector of the two arms is turned by half the
target angle to either side, about the normal of the arms; the outer nodes move onto the two
directions at their current distances from the vertex, which stays.
-/

namespace Relaxation.AngleAtVertex

variable {α : Type} [Scalar α]

/-- The angle between two arms, none when one of them is almost zero. -/
def between (ba bc : Vec3 α) : Option α :=
  if ba.almostZero 1e-12 || bc.almostZero 1e-12 then none
  else some (Scalar.acos (Scalar.clamp (ba.normalize.dot bc.normalize) (-1) 1))

/-- The unit bisector of two arms; opposite arms have one perpendicular to them, in their plane
if they span one. -/
def bisector (ba bc : Vec3 α) : Vec3 α :=
  let ua := ba.normalize
  let total := ua + bc.normalize
  if total.almostZero 1e-9 then
    let normal := ba.cross bc
    let across := if normal.almostZero 1e-12 then ua.perpendicular else normal.cross ua
    across.normalize
  else total.normalize

/-- A vector normal to two arms; for parallel arms it is normal to the first and to the
bisector. -/
def normal (ba bc bisector : Vec3 α) : Vec3 α :=
  let across := ba.cross bc
  if across.almostZero 1e-12 then
    let ua := ba.normalize
    let across := ua.cross bisector
    if across.almostZero 1e-12 then ua.perpendicular else across
  else across

/-- The directions in which the two outer nodes should lie. -/
def directions (angle : α) (ba bc : Vec3 α) : Vec3 α × Vec3 α :=
  let bisector := bisector ba bc
  let normal := normal ba bc bisector
  let axis := normal / normal.norm
  let half := 0.5 * angle
  (Mat3.rotation axis (-half) * bisector, Mat3.rotation axis half * bisector)

def respond (angle : α) : List (Vec3 α) → Response α
  | [a, b, c] =>
    let ba := a - b
    let bc := c - b
    if ba.almostZero 1e-12 || bc.almostZero 1e-12 then Response.idle 3
    else
      let (toA, toC) := directions angle ba bc
      [some (b + toA * ba.norm - a), none, some (b + toC * bc.norm - c)]
  | ps => Response.idle ps.length

def readings : List (Vec3 α) → List (Reading α)
  | [a, b, c] => (between (a - b) (c - b)).toList.map .scalar
  | _ => []

end Relaxation.AngleAtVertex
