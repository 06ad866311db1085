import Relaxation.Geometry.Vec3

/-!
# Triangle faces

A face names its corners by their places in a list of vertices.
-/

namespace Relaxation

structure Face where
  a : Nat
  b : Nat
  c : Nat
  deriving Repr, DecidableEq

namespace Face

def corners (f : Face) : List Nat := [f.a, f.b, f.c]

/-- The same triangle seen from its other side. -/
def flip (f : Face) : Face := ⟨f.a, f.c, f.b⟩

/-- The first corner that is not one of `count` vertices. -/
def strayCorner? (count : Nat) (f : Face) : Option Nat := f.corners.find? (count ≤ ·)

end Face

/-- The vertex at a place in the list, the origin where there is none. -/
def vertexAt {α : Type} [Scalar α] (vertices : List (Vec3 α)) (i : Nat) : Vec3 α :=
  vertices[i]?.getD 0

end Relaxation
