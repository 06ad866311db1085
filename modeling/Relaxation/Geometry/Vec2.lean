import Relaxation.Geometry.Vec3

/-!
# Vectors in the horizontal plane
-/

namespace Relaxation

@[ext] structure Vec2 (α : Type) where
  x : α
  y : α
  deriving Repr, DecidableEq

namespace Vec2

variable {α : Type} [Scalar α]

instance : Zero (Vec2 α) := ⟨⟨0, 0⟩⟩

instance : Add (Vec2 α) := ⟨fun a b => ⟨a.x + b.x, a.y + b.y⟩⟩

instance : Sub (Vec2 α) := ⟨fun a b => ⟨a.x - b.x, a.y - b.y⟩⟩

instance : Neg (Vec2 α) := ⟨fun a => ⟨-a.x, -a.y⟩⟩

instance : HMul (Vec2 α) α (Vec2 α) := ⟨fun a t => ⟨a.x * t, a.y * t⟩⟩

instance : HDiv (Vec2 α) α (Vec2 α) := ⟨fun a t => ⟨a.x / t, a.y / t⟩⟩

def dot (a b : Vec2 α) : α := a.x * b.x + a.y * b.y

def norm (a : Vec2 α) : α := Scalar.sqrt (a.dot a)

def sum (ps : List (Vec2 α)) : Vec2 α := ps.foldl (· + ·) 0

/-- The mean of a non-empty point set. -/
def centroid (ps : List (Vec2 α)) : Vec2 α := sum ps / (ps.length : α)

/-- The shadow of a point on the horizontal plane. -/
def ofVec3 (p : Vec3 α) : Vec2 α := ⟨p.x, p.y⟩

/-- The horizontal vector with the given plan. -/
def toVec3 (p : Vec2 α) : Vec3 α := ⟨p.x, p.y, 0⟩

end Vec2
end Relaxation
