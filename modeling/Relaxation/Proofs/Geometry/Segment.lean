import Mathlib.Analysis.Convex.Segment
import Relaxation.Proofs.Geometry.ClosestPoint

/-!
# Closest points on segments

The point found on a segment is the nearest one when the segment is a point or long enough
(`isNearest_closestOnSegment`). A segment in between is taken for its first end, which is no farther
than any other point of it by more than the `1e-6` that such a segment can measure
(`closestOnSegment_within`). In all cases a point that moves straight away from the one found on the
segment, or from the segment at a right angle, does not change it (`closestOnSegment_toward`,
`closestOnSegment_add`).
-/

namespace Relaxation

open Triangle

variable {p a b q : Vec3 ℝ}

/-- A segment is a triangle whose third corner is the first one again. -/
theorem triangle_self (a b : Vec3 ℝ) : triangle a b a = segment ℝ a b := by
  rw [triangle, Set.insert_eq_of_mem (by simp), Set.pair_comm, convexHull_pair]

theorem closestOnSegment_of_short (h : (b - a).normSq < 1e-12) : closestOnSegment p a b = a :=
  if_pos h

theorem closestOnSegment_of_long (h : 1e-12 ≤ (b - a).normSq) :
    closestOnSegment p a b =
      a + (b - a) * Min.min (Max.max (along p a b / (b - a).normSq) 0) (1 : ℝ) := by
  rw [closestOnSegment, if_neg h.not_gt, Scalar.clamp_real, Vec3.dot_comm, along]

/-- The foot of the perpendicular from `p` if it lies on the segment, or else the end that it lies
beyond. -/
theorem isNearest_closestOnSegment_of_long (h : 1e-12 ≤ (b - a).normSq) :
    IsNearest p (segment ℝ a b) (closestOnSegment p a b) := by
  have hpos : 0 < (b - a).normSq := lt_of_lt_of_le (by norm_num) h
  have hsum := along_add_along p a b
  rw [closestOnSegment_of_long h, ← triangle_self]
  by_cases hbehind : along p a b ≤ 0
  · have hcorner : AtCorner p a b a := ⟨hbehind, (along_self p a).le⟩
    rw [max_eq_right (div_nonpos_of_nonpos_of_nonneg hbehind hpos.le), min_eq_left zero_le_one,
      Vec3.mul_real, zero_smul, add_zero]
    exact hcorner.isNearest
  by_cases hbeyond : (b - a).normSq ≤ along p a b
  · have hback : along p b a ≤ 0 := by linarith
    have hcorner : AtCorner p b a a := ⟨hback, hback⟩
    have hone : 1 ≤ along p a b / (b - a).normSq := (one_le_div hpos).mpr hbeyond
    rw [max_eq_left (zero_le_one.trans hone), min_eq_right hone, Vec3.mul_real, one_smul,
      add_sub_cancel, ← rotate]
    exact hcorner.isNearest
  · have hne : a ≠ b := by
      rintro rfl
      rw [sub_self, Vec3.normSq_zero] at hpos
      exact hpos.false
    have hside : side p a b a ≤ 0 := by
      rw [side, along_self, sub_self, Vec3.dot_zero, mul_zero, mul_zero, sub_zero]
    have hedge : AtEdge p a b a :=
      ⟨hside, (not_le.mp hbehind).le, by linarith [not_le.mp hbeyond]⟩
    have hshare : along p a b / (b - a).normSq ≤ 1 := (div_le_one hpos).mpr (not_le.mp hbeyond).le
    rw [max_eq_left (div_nonneg hedge.2.1 hpos.le), min_eq_left hshare]
    exact hedge.isNearest hne

theorem closestOnSegment_mem (p a b : Vec3 ℝ) : closestOnSegment p a b ∈ segment ℝ a b := by
  rcases lt_or_ge (b - a).normSq 1e-12 with hshort | hlong
  · rw [closestOnSegment_of_short hshort]
    exact left_mem_segment ℝ a b
  · exact (isNearest_closestOnSegment_of_long hlong).mem

theorem isNearest_closestOnSegment (h : (b - a).normSq = 0 ∨ 1e-12 ≤ (b - a).normSq) :
    IsNearest p (segment ℝ a b) (closestOnSegment p a b) := by
  rcases h with hzero | hlong
  · have heq : b = a := sub_eq_zero.mp (Vec3.eq_zero_of_normSq hzero)
    have hshort : (b - a).normSq < 1e-12 := by
      rw [hzero]
      norm_num
    rw [closestOnSegment_of_short hshort, heq, segment_same]
    exact ⟨rfl, fun x hx => by rw [hx]⟩
  · exact isNearest_closestOnSegment_of_long hlong

/-- No point of a segment is farther from its first end than the second one. -/
theorem norm_sub_le_of_mem_segment (h : q ∈ segment ℝ a b) : (q - a).norm ≤ (b - a).norm := by
  rw [segment_eq_image'] at h
  obtain ⟨t, ⟨hlower, hupper⟩, rfl⟩ := h
  dsimp only
  rw [add_sub_cancel_left, ← Vec3.mul_real, Vec3.norm_mul, abs_of_nonneg hlower]
  exact mul_le_of_le_one_right (b - a).norm_nonneg hupper

/-! ## Moving away from a segment -/

/-- Going from a clamped number towards the number itself, and beyond, does not change what it is
clamped to. -/
theorem clamp_toward {x t s : ℝ} (ht : t = Min.min (Max.max x 0) 1) (hs : 0 ≤ s) :
    Min.min (Max.max (t + (x - t) * s) 0) 1 = t := by
  rcases le_total x 0 with hbefore | hafter
  · rw [max_eq_right hbefore, min_eq_left zero_le_one] at ht
    rw [ht, sub_zero, zero_add, max_eq_right (mul_nonpos_of_nonpos_of_nonneg hbefore hs),
      min_eq_left zero_le_one]
  rcases le_total x 1 with hwithin | hbeyond
  · rw [max_eq_left hafter, min_eq_left hwithin] at ht
    rw [ht, sub_self, zero_mul, add_zero, max_eq_left hafter, min_eq_left hwithin]
  · rw [max_eq_left hafter, min_eq_right hbeyond] at ht
    have hfar : 1 ≤ 1 + (x - 1) * s := le_add_of_nonneg_right (mul_nonneg (sub_nonneg.mpr hbeyond) hs)
    rw [ht, max_eq_left (zero_le_one.trans hfar), min_eq_right hfar]

/-- All points in the direction of `p` from the point on the segment have that point in common. -/
theorem closestOnSegment_toward (p a b : Vec3 ℝ) {s : ℝ} (hs : 0 ≤ s) :
    let c := closestOnSegment p a b
    closestOnSegment (c + (p - c) * s) a b = c := by
  intro c
  rcases lt_or_ge (b - a).normSq 1e-12 with hshort | hlong
  · exact (closestOnSegment_of_short hshort).trans (closestOnSegment_of_short hshort).symm
  · have hpos : (b - a).normSq ≠ 0 := (lt_of_lt_of_le (by norm_num) hlong).ne'
    set t := Min.min (Max.max (along p a b / (b - a).normSq) 0) (1 : ℝ) with ht
    have hc : c = a + (b - a) * t := closestOnSegment_of_long hlong
    have halong : along (c + (p - c) * s) a b / (b - a).normSq =
        t + (along p a b / (b - a).normSq - t) * s := by
      have hsplit : along (c + (p - c) * s) a b =
          (b - a).normSq * t + (along p a b - (b - a).normSq * t) * s := by
        rw [hc]
        simp only [along, Vec3.normSq, Vec3.dot, Vec3.sub_x, Vec3.sub_y, Vec3.sub_z, Vec3.add_x,
          Vec3.add_y, Vec3.add_z, Vec3.mul_x, Vec3.mul_y, Vec3.mul_z]
        ring
      rw [hsplit]
      field_simp
    rw [closestOnSegment_of_long hlong, halong, clamp_toward ht hs, hc]

/-- Seen along a segment, moving at a right angle to it changes nothing. -/
theorem closestOnSegment_add (p : Vec3 ℝ) {v : Vec3 ℝ} (h : (b - a).dot v = 0) :
    closestOnSegment (p + v) a b = closestOnSegment p a b := by
  have hdot : (p + v - a).dot (b - a) = (p - a).dot (b - a) := by
    simp only [Vec3.dot, Vec3.sub_x, Vec3.sub_y, Vec3.sub_z, Vec3.add_x, Vec3.add_y,
      Vec3.add_z] at h ⊢
    linear_combination h
  unfold closestOnSegment
  dsimp only
  rw [hdot]

/-! ## The distance that a short segment hides -/

theorem closestOnSegment_within (hq : q ∈ segment ℝ a b) :
    (closestOnSegment p a b - p).norm ≤ (q - p).norm + 1e-6 := by
  rcases lt_or_ge (b - a).normSq 1e-12 with hshort | hlong
  · have hlength : (b - a).norm ≤ 1e-6 := by
      refine Real.sqrt_le_iff.mpr ⟨by norm_num, hshort.le.trans_eq ?_⟩
      norm_num
    rw [closestOnSegment_of_short hshort]
    calc (a - p).norm = (q - p + -(q - a)).norm := by rw [neg_sub, add_comm, sub_add_sub_cancel]
      _ ≤ (q - p).norm + (-(q - a)).norm := Vec3.norm_add_le _ _
      _ = (q - p).norm + (q - a).norm := by rw [Vec3.norm_neg]
      _ ≤ (q - p).norm + 1e-6 := by linarith [norm_sub_le_of_mem_segment hq]
  · have hle := (isNearest_closestOnSegment_of_long hlong).norm_le (p := p) hq
    have hpos : (0 : ℝ) ≤ 1e-6 := by norm_num
    linarith

end Relaxation
