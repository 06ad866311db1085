import Mathlib.Data.Real.Basic
import Relaxation.Proofs.Domain.Basic
import Relaxation.Shape

/-!
# Closest points inside the domain

The closest point of a segment, sphere, circle or polyline is found without leaving the domain from
wherever one looks, a center or an axis included. Circles need a normal that does not vanish. Meshes
are left out, for a face may have an edge without length that is divided by.
-/

namespace Relaxation.Domain

noncomputable section

/-- The closest point of a segment, an end of it if it is too short to divide by. -/
def closestOnSegment? (p a b : Vec3 ℝ) : Option (Vec3 ℝ) :=
  let ab := b - a
  let lengthSq := ab.normSq
  if lengthSq < 1e-12 then some a
  else do return a + ab * (← clamp? (← div? ((p - a).dot ab) lengthSq) 0 1)

theorem closestOnSegment?_eq_some (p a b : Vec3 ℝ) :
    closestOnSegment? p a b = some (closestOnSegment p a b) := by
  unfold closestOnSegment? closestOnSegment
  dsimp only
  split
  case isTrue => rfl
  case isFalse h =>
    have hlength : (b - a).normSq ≠ 0 := by
      intro hzero
      rw [hzero] at h
      norm_num at h
    rw [div?_eq_some hlength, Option.bind_eq_bind, Option.bind_some,
      clamp?_eq_some (by norm_num)]
    rfl

/-- The closest point of a sphere, that along the first axis from the center. -/
def closestOnSphere? (s : Sphere ℝ) (p : Vec3 ℝ) : Option (Vec3 ℝ) := do
  let offset := p - s.center
  let offset := if offset.almostZero 1e-12 then Vec3.xAxis else offset
  return s.center + (← normalize? offset) * s.radius

theorem closestOnSphere?_eq_some (s : Sphere ℝ) (p : Vec3 ℝ) :
    closestOnSphere? s p = some (s.closestPoint p) := by
  have hoffset : (if (p - s.center).almostZero 1e-12 then Vec3.xAxis else p - s.center) ≠ 0 :=
    Vec3.ite_almostZero_ne_zero (by norm_num) Vec3.xAxis_ne_zero
  rw [closestOnSphere?, normalize?_eq_some hoffset]
  rfl

/-- The closest point of a circle, that across the normal from the axis. -/
def closestOnCircle? (c : Circle ℝ) (p : Vec3 ℝ) : Option (Vec3 ℝ) := do
  let offset := p - c.center
  let inPlane := offset - c.normal * offset.dot c.normal
  let inPlane := if inPlane.almostZero 1e-12 then c.normal.perpendicular else inPlane
  return c.center + (← normalize? inPlane) * c.radius

/-- Where a point has no direction from the axis, a vector across the normal gives one. -/
theorem closestOnCircle?_eq_some {c : Circle ℝ} (h : c.normal ≠ 0) (p : Vec3 ℝ) :
    closestOnCircle? c p = some (c.closestPoint p) := by
  have hdirection : ∀ v : Vec3 ℝ,
      (if v.almostZero 1e-12 then c.normal.perpendicular else v) ≠ 0 := fun v =>
    Vec3.ite_almostZero_ne_zero (by norm_num) (Vec3.perpendicular_ne_zero h)
  rw [closestOnCircle?, normalize?_eq_some (hdirection _)]
  rfl

/-- The nearest of the closest points of the segments. -/
def closestOnPolyline? (l : Polyline ℝ) (p : Vec3 ℝ) : Option (Vec3 ℝ) := do
  return nearestTo p (← l.segments.mapM fun (a, b) => closestOnSegment? p a b)

theorem closestOnPolyline?_eq_some (l : Polyline ℝ) (p : Vec3 ℝ) :
    closestOnPolyline? l p = some (l.closestPoint p) := by
  rw [closestOnPolyline?, mapM_eq_some_map fun x _ => closestOnSegment?_eq_some p x.1 x.2]
  rfl

/-- The closest point of a shape that is no mesh. -/
def closestOnShape? (shape : Shape ℝ) (p : Vec3 ℝ) : Option (Vec3 ℝ) :=
  match shape with
  | .line l => some (l.closestPoint p)
  | .plane l => some (l.closestPoint p)
  | .sphere s => closestOnSphere? s p
  | .polyline l => closestOnPolyline? l p
  | .mesh _ => none

theorem closestOnShape?_eq_some {shape : Shape ℝ} (h : ∀ m, shape ≠ .mesh m) (p : Vec3 ℝ) :
    closestOnShape? shape p = some (shape.closestPoint p) := by
  cases shape with
  | line l => rfl
  | plane l => rfl
  | sphere s => exact closestOnSphere?_eq_some s p
  | polyline l => exact closestOnPolyline?_eq_some l p
  | mesh m => exact absurd rfl (h m)

end

end Relaxation.Domain
