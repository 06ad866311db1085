import Relaxation.Geometry.Vec3

/-!
# Matrices of order three

A matrix is the triple of its columns, the images of the axes.
-/

namespace Relaxation

@[ext] structure Mat3 (α : Type) where
  c1 : Vec3 α
  c2 : Vec3 α
  c3 : Vec3 α
  deriving Repr, DecidableEq

namespace Mat3

variable {α : Type} [Scalar α]

instance : Zero (Mat3 α) := ⟨⟨0, 0, 0⟩⟩

instance : One (Mat3 α) := ⟨⟨⟨1, 0, 0⟩, ⟨0, 1, 0⟩, ⟨0, 0, 1⟩⟩⟩

instance : Add (Mat3 α) := ⟨fun a b => ⟨a.c1 + b.c1, a.c2 + b.c2, a.c3 + b.c3⟩⟩

instance : HDiv (Mat3 α) α (Mat3 α) := ⟨fun a t => ⟨a.c1 / t, a.c2 / t, a.c3 / t⟩⟩

/-- The image of `v`, a combination of the columns. -/
def apply (a : Mat3 α) (v : Vec3 α) : Vec3 α := a.c1 * v.x + a.c2 * v.y + a.c3 * v.z

instance : HMul (Mat3 α) (Vec3 α) (Vec3 α) := ⟨apply⟩

instance : Mul (Mat3 α) := ⟨fun a b => ⟨a * b.c1, a * b.c2, a * b.c3⟩⟩

def ofRows (r1 r2 r3 : Vec3 α) : Mat3 α :=
  ⟨⟨r1.x, r2.x, r3.x⟩, ⟨r1.y, r2.y, r3.y⟩, ⟨r1.z, r2.z, r3.z⟩⟩

def transpose (a : Mat3 α) : Mat3 α := ofRows a.c1 a.c2 a.c3

def diagonal (d : Vec3 α) : Mat3 α := ⟨⟨d.x, 0, 0⟩, ⟨0, d.y, 0⟩, ⟨0, 0, d.z⟩⟩

/-- The entries on the main diagonal. -/
def diag (a : Mat3 α) : Vec3 α := ⟨a.c1.x, a.c2.y, a.c3.z⟩

def trace (a : Mat3 α) : α := a.c1.x + a.c2.y + a.c3.z

/-- The determinant, expanded along the first row. -/
def det (a : Mat3 α) : α :=
  a.c1.x * (a.c2.y * a.c3.z - a.c2.z * a.c3.y) - a.c2.x * (a.c1.y * a.c3.z - a.c1.z * a.c3.y) +
    a.c3.x * (a.c1.y * a.c2.z - a.c1.z * a.c2.y)

/-- The matrix `v wᵀ`. -/
def outer (v w : Vec3 α) : Mat3 α := ⟨v * w.x, v * w.y, v * w.z⟩

end Mat3
end Relaxation
