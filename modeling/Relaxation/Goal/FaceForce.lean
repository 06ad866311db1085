import Relaxation.Fault
import Relaxation.Goal.Response

/-!
# Forces on the faces of a mesh

Each face pushes its three corners by one force, in full, and a corner that belongs to several
faces takes the sum. Corners of no face are left alone.
-/

namespace Relaxation.FaceForce

variable {α : Type} [Scalar α]

/-- The normal of a triangle whose length is the area. -/
def areaNormal (a b c : Vec3 α) : Vec3 α := (b - a).cross (c - a) * (0.5 : α)

def faceNormal (ps : List (Vec3 α)) (f : Face) : Vec3 α :=
  areaNormal (vertexAt ps f.a) (vertexAt ps f.b) (vertexAt ps f.c)

/-- The response of `n` vertices to a load on each face. -/
def spread (n : Nat) (loads : List (Face × Vec3 α)) : Response α :=
  let shares := loads.flatMap fun (f, load) => f.corners.map (·, load)
  (List.range n).map fun v =>
    let own := shares.filter fun (corner, _) => corner == v
    if own.isEmpty then none else some (Vec3.sum (own.map Prod.snd))

/-- The response of `n` vertices to a force on each face, given by the face's area normal. -/
def respond (n : Nat) (force : Vec3 α → Vec3 α) (faces : List Face) (ps : List (Vec3 α)) :
    Response α :=
  spread n (faces.map fun f => (f, force (faceNormal ps f)))

/-- The signed volume enclosed by a closed mesh, positive when its faces look outward. -/
def volume (faces : List Face) (ps : List (Vec3 α)) : α :=
  let corner := vertexAt ps
  Scalar.sum (faces.map fun f => (corner f.a).dot ((corner f.b).cross (corner f.c))) / 6.0

/-- The volume enclosed by faces that have all their corners among the vertices. -/
def enclosedVolume (faces : List Face) (ps : List (Vec3 α)) : Checked α α := do
  requireFaces ps.length faces
  return volume faces ps

def pressureResponse (n : Nat) (pressure : α) (faces : List Face) (ps : List (Vec3 α)) :
    Response α :=
  respond n (· * pressure) faces ps

/-- The pressure of a fixed amount of gas in the enclosed volume; a collapsed volume exerts
none. -/
def gasResponse (n : Nat) (amount : α) (faces : List Face) (ps : List (Vec3 α)) : Response α :=
  let volume := volume faces ps
  if Scalar.abs volume < 1e-12 then Response.idle n
  else pressureResponse n (amount / volume) faces ps

/-- The load of a wind on a face: the component of the wind along the normal, times the area. -/
def windLoad (wind normal : Vec3 α) : Vec3 α :=
  let area := normal.norm
  if area < 1e-12 then 0 else normal * (normal.dot wind / area)

def windResponse (n : Nat) (wind : Vec3 α) (faces : List Face) (ps : List (Vec3 α)) :
    Response α :=
  respond n (windLoad wind) faces ps

end Relaxation.FaceForce
