import Mathlib.Algebra.Order.Archimedean.Real.Basic
import Relaxation.Proofs.Geometry.ClosestPoint
import Relaxation.Proofs.Geometry.Rotation
import Relaxation.Shape

/-!
# How far points are scattered about a line or a plane

The squared distances of points from a line or a plane add up to a part that depends on the direction
alone, and to one for the offset from the centroid. So among all lines, those through the centroid along
which the points spread most have the least sum (`Line.scatter_le`), and among all planes, those through
the centroid across which they spread least (`Plane.scatter_le`).
-/

namespace Relaxation

/-- The square of the distance from a point to a set. -/
noncomputable def Vec3.gapSq (p : Vec3 ℝ) (s : Set (Vec3 ℝ)) : ℝ := sInf ((·.distSq p) '' s)

theorem IsNearest.gapSq_eq {p q : Vec3 ℝ} {s : Set (Vec3 ℝ)} (h : IsNearest p s q) :
    p.gapSq s = q.distSq p := by
  refine IsLeast.csInf_eq ⟨⟨q, h.mem, rfl⟩, ?_⟩
  rintro _ ⟨x, hx, rfl⟩
  exact h.le x hx

/-- The sum of the squares of the distances from the points to a set. -/
noncomputable def scatter (points : List (Vec3 ℝ)) (s : Set (Vec3 ℝ)) : ℝ :=
  (points.map (·.gapSq s)).sum

/-! ## Distances to lines and planes -/

namespace Line

/-- The points of a line. -/
def carrier (l : Line ℝ) : Set (Vec3 ℝ) := {x | ∃ t : ℝ, x = l.origin + l.direction * t}

/-- The length of the direction does not matter. -/
theorem carrier_normalize {l : Line ℝ} (h : l.direction ≠ 0) :
    (⟨l.origin, l.direction.normalize⟩ : Line ℝ).carrier = l.carrier := by
  have hpos := Vec3.norm_pos h
  ext x
  constructor
  · rintro ⟨t, rfl⟩
    refine ⟨l.direction.norm⁻¹ * t, ?_⟩
    rw [Vec3.normalize, Scalar.recip_real, Vec3.mul_real, Vec3.mul_real, Vec3.mul_real, smul_smul,
      mul_comm]
  · rintro ⟨t, rfl⟩
    refine ⟨l.direction.norm * t, ?_⟩
    dsimp only
    rw [Vec3.mul_real _ (_ * t), mul_comm, mul_smul, ← Vec3.mul_real _ l.direction.norm,
      Vec3.normalize_mul_norm h, Vec3.mul_real]

variable {l : Line ℝ} (h : l.direction.normSq = 1)

include h

theorem closestPoint_distSq (p : Vec3 ℝ) : (l.closestPoint p).distSq p =
    (p - l.origin).normSq - (p - l.origin).dot l.direction ^ 2 := by
  simp only [closestPoint, Vec3.distSq, Vec3.normSq, Vec3.dot, Vec3.sub_x, Vec3.sub_y, Vec3.sub_z,
    Vec3.add_x, Vec3.add_y, Vec3.add_z, Vec3.mul_x, Vec3.mul_y, Vec3.mul_z] at *
  generalize l.direction = d, l.origin = o at *
  linear_combination ((p.x - o.x) * d.x + (p.y - o.y) * d.y + (p.z - o.z) * d.z) ^ 2 * h

theorem isNearest_closestPoint (p : Vec3 ℝ) : IsNearest p l.carrier (l.closestPoint p) := by
  refine ⟨⟨_, rfl⟩, ?_⟩
  rintro _ ⟨t, rfl⟩
  have hsquare : (l.origin + l.direction * t).distSq p = (p - l.origin).normSq -
      (p - l.origin).dot l.direction ^ 2 + (t - (p - l.origin).dot l.direction) ^ 2 := by
    simp only [Vec3.distSq, Vec3.normSq, Vec3.dot, Vec3.sub_x, Vec3.sub_y, Vec3.sub_z,
      Vec3.add_x, Vec3.add_y, Vec3.add_z, Vec3.mul_x, Vec3.mul_y, Vec3.mul_z] at *
    linear_combination t ^ 2 * h
  rw [closestPoint_distSq h, hsquare]
  exact le_add_of_nonneg_right (sq_nonneg _)

end Line

namespace Plane

/-- The points of a plane. -/
def carrier (l : Plane ℝ) : Set (Vec3 ℝ) := {x | (x - l.origin).dot l.normal = 0}

/-- The length of the normal does not matter. -/
theorem carrier_normalize {l : Plane ℝ} (h : l.normal ≠ 0) :
    (⟨l.origin, l.normal.normalize⟩ : Plane ℝ).carrier = l.carrier := by
  ext x
  simp only [carrier, Set.mem_ofPred_eq, Vec3.dot_normalize_right]
  exact mul_eq_zero_iff_right (inv_ne_zero (Vec3.norm_pos h).ne')

variable {l : Plane ℝ} (h : l.normal.normSq = 1)

include h

theorem closestPoint_distSq (p : Vec3 ℝ) :
    (l.closestPoint p).distSq p = (p - l.origin).dot l.normal ^ 2 := by
  simp only [closestPoint, signedDistance, Vec3.distSq, Vec3.normSq, Vec3.dot, Vec3.sub_x,
    Vec3.sub_y, Vec3.sub_z, Vec3.mul_x, Vec3.mul_y, Vec3.mul_z] at *
  generalize l.normal = d, l.origin = o at *
  linear_combination ((p.x - o.x) * d.x + (p.y - o.y) * d.y + (p.z - o.z) * d.z) ^ 2 * h

theorem isNearest_closestPoint (p : Vec3 ℝ) : IsNearest p l.carrier (l.closestPoint p) := by
  constructor
  · simp only [carrier, Set.mem_ofPred_eq, closestPoint, signedDistance, Vec3.normSq, Vec3.dot,
      Vec3.sub_x, Vec3.sub_y, Vec3.sub_z, Vec3.mul_x, Vec3.mul_y, Vec3.mul_z] at *
    generalize l.normal = d, l.origin = o at *
    linear_combination -((p.x - o.x) * d.x + (p.y - o.y) * d.y + (p.z - o.z) * d.z) * h
  · intro x hx
    have hheight : (p - l.origin).dot l.normal = -(x - p).dot l.normal := by
      rw [carrier, Set.mem_ofPred_eq] at hx
      simp only [Vec3.dot, Vec3.sub_x, Vec3.sub_y, Vec3.sub_z] at *
      linear_combination hx
    rw [closestPoint_distSq h, hheight, neg_sq, sq]
    calc (x - p).dot l.normal * (x - p).dot l.normal
        ≤ (x - p).normSq * l.normal.normSq := Vec3.dot_mul_self_le ..
      _ = x.distSq p := by rw [h, mul_one, Vec3.distSq]

end Plane

/-! ## Sums about the centroid -/

/-- The sum of the squares of how far the points extend from their centroid in direction `d`. -/
noncomputable def spread (points : List (Vec3 ℝ)) (d : Vec3 ℝ) : ℝ :=
  (points.map fun p => (p - Vec3.centroid points).dot d ^ 2).sum

/-- What is quadratic in the offset from a point is least about the centroid. -/
theorem sum_map_sub_origin {f : Vec3 ℝ → ℝ} {o w : Vec3 ℝ} {points : List (Vec3 ℝ)}
    (hf : ∀ q, f (q + (Vec3.centroid points - o)) =
      f q + w.dot q + f (Vec3.centroid points - o)) :
    (points.map fun p => f (p - o)).sum =
      (points.map fun p => f (p - Vec3.centroid points)).sum +
        points.length * f (Vec3.centroid points - o) := by
  calc (points.map fun p => f (p - o)).sum
      = (points.map fun p => f (p - Vec3.centroid points) + w.dot (p - Vec3.centroid points) +
          f (Vec3.centroid points - o)).sum := by
        refine congrArg List.sum (List.map_congr_left fun p _ => ?_)
        rw [← hf, sub_add_sub_cancel]
    _ = _ := by
        rw [List.sum_map_add, List.sum_map_add, Vec3.sum_dot_sub_centroid, add_zero,
          List.map_const',
          List.sum_replicate, nsmul_eq_mul]

namespace Line

theorem scatter_eq {l : Line ℝ} (h : l.direction.normSq = 1) (points : List (Vec3 ℝ)) :
    scatter points l.carrier =
      (points.map fun p => (p - Vec3.centroid points).normSq).sum - spread points l.direction +
        points.length * ((Vec3.centroid points - l.origin).normSq -
          (Vec3.centroid points - l.origin).dot l.direction ^ 2) := by
  let f : Vec3 ℝ → ℝ := fun v => v.normSq - v.dot l.direction ^ 2
  have hf : ∀ m q, f (q + m) =
      f q + ((m - l.direction * m.dot l.direction) * (2 : ℝ)).dot q + f m := by
    intro m q
    simp only [f, Vec3.normSq, Vec3.dot, Vec3.add_x, Vec3.add_y, Vec3.add_z, Vec3.mul_x, Vec3.mul_y,
      Vec3.mul_z, Vec3.sub_x, Vec3.sub_y, Vec3.sub_z]
    ring
  have hspread : (points.map fun p => f (p - Vec3.centroid points)).sum +
      spread points l.direction = (points.map fun p => (p - Vec3.centroid points).normSq).sum := by
    rw [spread, ← List.sum_map_add]
    exact congrArg List.sum (List.map_congr_left fun p _ => sub_add_cancel ..)
  calc scatter points l.carrier
      = (points.map fun p => f (p - l.origin)).sum := by
        refine congrArg List.sum (List.map_congr_left fun p _ => ?_)
        rw [(isNearest_closestPoint h p).gapSq_eq, closestPoint_distSq h]
    _ = (points.map fun p => f (p - Vec3.centroid points)).sum +
          points.length * f (Vec3.centroid points - l.origin) := sum_map_sub_origin (hf _)
    _ = _ := by rw [← hspread, add_sub_cancel_right]

/-- A line through the centroid along which the points spread most is as near to them as a line can
be. -/
theorem scatter_le {l l' : Line ℝ} {points : List (Vec3 ℝ)} (h : l.direction.normSq = 1)
    (horigin : l.origin = Vec3.centroid points)
    (hmost : ∀ d : Vec3 ℝ, d.normSq = 1 → spread points d ≤ spread points l.direction)
    (h' : l'.direction ≠ 0) : scatter points l.carrier ≤ scatter points l'.carrier := by
  have hunit := Vec3.normSq_normalize h'
  have hoffset := Vec3.dot_mul_self_le (Vec3.centroid points - l'.origin) l'.direction.normalize
  rw [hunit, mul_one] at hoffset
  rw [scatter_eq h, ← carrier_normalize h', scatter_eq hunit, horigin, sub_self, Vec3.normSq_zero,
    Vec3.dot_comm, Vec3.dot_zero]
  have hterm : 0 ≤ (points.length : ℝ) * ((Vec3.centroid points - l'.origin).normSq -
      (Vec3.centroid points - l'.origin).dot l'.direction.normalize ^ 2) :=
    mul_nonneg (Nat.cast_nonneg _) (by rw [sq]; exact sub_nonneg.mpr hoffset)
  have hspread := hmost _ hunit
  dsimp only
  linarith

end Line

namespace Plane

theorem scatter_eq {l : Plane ℝ} (h : l.normal.normSq = 1) (points : List (Vec3 ℝ)) :
    scatter points l.carrier = spread points l.normal +
        points.length * (Vec3.centroid points - l.origin).dot l.normal ^ 2 := by
  let f : Vec3 ℝ → ℝ := fun v => v.dot l.normal ^ 2
  have hf : ∀ m q, f (q + m) = f q + (l.normal * (2 * m.dot l.normal)).dot q + f m := by
    intro m q
    simp only [f, Vec3.dot, Vec3.add_x, Vec3.add_y, Vec3.add_z, Vec3.mul_x, Vec3.mul_y, Vec3.mul_z]
    ring
  calc scatter points l.carrier
      = (points.map fun p => f (p - l.origin)).sum := by
        refine congrArg List.sum (List.map_congr_left fun p _ => ?_)
        rw [(isNearest_closestPoint h p).gapSq_eq, closestPoint_distSq h]
    _ = _ := sum_map_sub_origin (hf _)

/-- A plane through the centroid across which the points spread least is as near to them as a plane
can be. -/
theorem scatter_le {l l' : Plane ℝ} {points : List (Vec3 ℝ)} (h : l.normal.normSq = 1)
    (horigin : l.origin = Vec3.centroid points)
    (hleast : ∀ d : Vec3 ℝ, d.normSq = 1 → spread points l.normal ≤ spread points d)
    (h' : l'.normal ≠ 0) : scatter points l.carrier ≤ scatter points l'.carrier := by
  have hunit := Vec3.normSq_normalize h'
  rw [scatter_eq h, ← carrier_normalize h', scatter_eq hunit, horigin, sub_self, Vec3.dot_comm,
    Vec3.dot_zero]
  have hterm : 0 ≤ (points.length : ℝ) *
      (Vec3.centroid points - l'.origin).dot l'.normal.normalize ^ 2 :=
    mul_nonneg (Nat.cast_nonneg _) (sq_nonneg _)
  have hspread := hleast _ hunit
  dsimp only
  linarith

end Plane
end Relaxation
