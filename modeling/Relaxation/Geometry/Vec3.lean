import Relaxation.Scalar

/-!
# Vectors in space

Points and displacements. Sums and products are written out component by component in a fixed
order, so that they mean the same over rounded numbers.
-/

namespace Relaxation

@[ext] structure Vec3 (α : Type) where
  x : α
  y : α
  z : α
  deriving Repr, DecidableEq

namespace Vec3

variable {α : Type} [Scalar α]

instance : Zero (Vec3 α) := ⟨⟨0, 0, 0⟩⟩

instance : Add (Vec3 α) := ⟨fun a b => ⟨a.x + b.x, a.y + b.y, a.z + b.z⟩⟩

instance : Sub (Vec3 α) := ⟨fun a b => ⟨a.x - b.x, a.y - b.y, a.z - b.z⟩⟩

instance : Neg (Vec3 α) := ⟨fun a => ⟨-a.x, -a.y, -a.z⟩⟩

instance : HMul (Vec3 α) α (Vec3 α) := ⟨fun a t => ⟨a.x * t, a.y * t, a.z * t⟩⟩

instance : HDiv (Vec3 α) α (Vec3 α) := ⟨fun a t => ⟨a.x / t, a.y / t, a.z / t⟩⟩

def xAxis : Vec3 α := ⟨1, 0, 0⟩

def zAxis : Vec3 α := ⟨0, 0, 1⟩

def dot (a b : Vec3 α) : α := a.x * b.x + a.y * b.y + a.z * b.z

def cross (a b : Vec3 α) : Vec3 α :=
  ⟨a.y * b.z - a.z * b.y, a.z * b.x - a.x * b.z, a.x * b.y - a.y * b.x⟩

def normSq (a : Vec3 α) : α := a.dot a

def norm (a : Vec3 α) : α := Scalar.sqrt a.normSq

def distSq (a b : Vec3 α) : α := (a - b).normSq

/-- Every component lies strictly inside `(-tolerance, tolerance)`. -/
def almostZero (tolerance : α) (a : Vec3 α) : Bool :=
  Scalar.abs a.x < tolerance && Scalar.abs a.y < tolerance && Scalar.abs a.z < tolerance

/-- The unit vector along `a`, which is not a direction when `a` is zero. -/
def normalize (a : Vec3 α) : Vec3 α := a * Scalar.recip a.norm

/-- A vector perpendicular to `a`. The component of least magnitude is the one left out, so the
result vanishes only with `a`. -/
def perpendicular (a : Vec3 α) : Vec3 α :=
  if Scalar.abs a.x ≤ Scalar.abs a.y ∧ Scalar.abs a.x ≤ Scalar.abs a.z then ⟨0, -a.z, a.y⟩
  else if Scalar.abs a.y ≤ Scalar.abs a.z then ⟨-a.z, 0, a.x⟩
  else ⟨-a.y, a.x, 0⟩

def isFinite (a : Vec3 α) : Bool :=
  Scalar.isFinite a.x && Scalar.isFinite a.y && Scalar.isFinite a.z

def sum (ps : List (Vec3 α)) : Vec3 α := ps.foldl (· + ·) 0

/-- The mean of a point set, the origin for the empty one. -/
def centroid (ps : List (Vec3 α)) : Vec3 α :=
  if ps.isEmpty then 0 else sum ps / (ps.length : α)

end Vec3
end Relaxation
