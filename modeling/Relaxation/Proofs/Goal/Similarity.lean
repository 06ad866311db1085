import Mathlib.Data.Real.Basic
import Relaxation.Proofs.Goal.Lawful
import Relaxation.Proofs.Goal.Momentum

/-!
# Placed shapes are similar

Whatever the decomposition of the cross-covariance is worth, its outer factors are rotations, so a shape
is placed by an orthogonal matrix and a scale. The scale is not negative, because the singular values
come in an order that lets the first one make up for the last. So in exact arithmetic the response of a
shape matching goal, taken in full, moves its nodes onto a similar image of the shape about their
centroid (`Goal.Built.places_similarly`).
-/

namespace Relaxation

namespace Svd3

/-- What the order of the columns leaves of the order of the singular values, unless a pivot is so short
that it is taken for zero. -/
theorem s_bounds {a : Mat3 ℝ}
    (hpivots : ∀ rho ∈ pivots (sortedColumns a), ¬(0 < rho ∧ rho ≤ pivotTolerance)) :
    0 ≤ (decompose a).s.y ∧ |(decompose a).s.z| ≤ (decompose a).s.x := by
  obtain ⟨h₂₁, h₃₁, h₃₂, hx, hy⟩ := qr_triangular hpivots
  obtain ⟨h₁₂, h₂₃⟩ := sorted_sortColumns (a * rightRotation a) (rightRotation a)
  obtain ⟨hlength₁, hlength₂, hlength₃⟩ := normSq_qr (sortedColumns a)
  obtain ⟨-, hz, -⟩ := diag_ordered ⟨h₂₁, h₃₁, h₃₂⟩ hx (by rwa [hlength₁, hlength₂])
    (by rwa [hlength₂, hlength₃])
  rw [decompose_eq]
  exact ⟨hy, hz⟩

end Svd3

/-! ## Placements -/

namespace Placement

variable {x : Placement ℝ}

theorem apply_sub (x : Placement ℝ) (s t : Vec3 ℝ) :
    x.apply s - x.apply t = x.rotation * (s - t) * x.scale := by
  ext <;> simp only [apply, Vec3.sub_x, Vec3.sub_y, Vec3.sub_z, Vec3.add_x, Vec3.add_y, Vec3.add_z,
    Vec3.mul_x, Vec3.mul_y, Vec3.mul_z, Mat3.mul_x, Mat3.mul_y, Mat3.mul_z] <;> ring

/-- All distances are changed by the scale. -/
theorem norm_apply_sub (horthogonal : x.rotation.IsOrthogonal) (hscale : 0 ≤ x.scale)
    (s t : Vec3 ℝ) : (x.apply s - x.apply t).norm = x.scale * (s - t).norm := by
  rw [apply_sub, Vec3.norm_mul, abs_of_nonneg hscale, Vec3.norm, horthogonal.normSq_mul, mul_comm]
  rfl

/-- A placement that keeps the size of a shape unless scaling is allowed, and its handedness unless the
shape is planar. -/
structure IsSimilarity (shape : TargetShape ℝ) (allowScaling : Bool) (x : Placement ℝ) : Prop where
  orthogonal : x.rotation.IsOrthogonal
  scale_nonneg : 0 ≤ x.scale
  scale_eq_one : allowScaling = false → x.scale = 1
  det_eq_one : shape.planar = false → x.rotation.det = 1

end Placement

namespace TargetShape

variable {shape : TargetShape ℝ} {allowScaling : Bool} {ps : List (Vec3 ℝ)}

theorem isSimilarity_ofSvd {d : Svd3 ℝ} (hu : d.u.IsRotation) (hv : d.v.IsRotation) (hy : 0 ≤ d.s.y)
    (hz : |d.s.z| ≤ d.s.x) (hsize : 0 ≤ shape.sizeSq) (center : Vec3 ℝ) :
    (Placement.ofSvd d shape allowScaling center).IsSimilarity shape allowScaling := by
  rw [ofSvd_eq shape hu hv]
  refine ⟨shape.isOrthogonal_bestRotation hu hv, ?_, fun hfixed => ?_, fun hsolid => ?_⟩
  · dsimp only
    split
    · exact div_nonneg (shape.bestOverlap_nonneg_of_abs_le hy hz) hsize
    · exact zero_le_one
  · simp [hfixed]
  · rw [shape.det_bestRotation hu hv]
    exact if_neg fun h => Bool.false_ne_true (hsolid.symm.trans h.1)

/-- A shape that is almost a point is not turned at all. -/
theorem isSimilarity_ofPoints
    (hpivots : ∀ rho ∈ Svd3.pivots (Svd3.sortedColumns (shape.crossCovariance ps)),
      ¬(0 < rho ∧ rho ≤ Svd3.pivotTolerance)) :
    (Placement.ofPoints shape allowScaling ps).IsSimilarity shape allowScaling := by
  by_cases hsize : 1e-24 ≤ shape.sizeSq
  · rw [ofPoints_eq hsize]
    obtain ⟨hy, hz⟩ := Svd3.s_bounds hpivots
    have hpos : (0 : ℝ) ≤ 1e-24 := by norm_num
    exact isSimilarity_ofSvd (Svd3.isRotation_u _) (Svd3.isRotation_v _) hy hz (hpos.trans hsize) _
  · unfold Placement.ofPoints
    rw [if_pos (not_le.mp hsize)]
    have hone : (1 : Mat3 ℝ).IsRotation := by rw [Mat3.IsRotation, Mat3.toMatrix_one]; exact one_mem _
    exact ⟨hone.orthogonal, zero_le_one, fun _ => rfl, fun _ => hone.det_eq_one⟩

theorem zipWith_add_sub {β : Type} (f : β → Vec3 ℝ) {ps : List (Vec3 ℝ)} {ts : List β}
    (h : ps.length = ts.length) :
    ps.zipWith (· + ·) ((ps.zip ts).map fun q => f q.2 - q.1) = ts.map f := by
  induction ps generalizing ts with
  | nil => rw [List.length_eq_zero_iff.mp h.symm]; rfl
  | cons p ps ih =>
    cases ts with
    | nil => cases h
    | cons t ts =>
      have htail := ih (Nat.succ.inj h)
      exact congrArg₂ List.cons (add_sub_cancel p (f t)) htail

/-- Moves in full put every node onto its placed point. -/
theorem zipWith_moves (h : ps.length = shape.points.length) :
    ps.zipWith (· + ·) (shape.respond allowScaling ps).moves =
      shape.points.map (Placement.ofPoints shape allowScaling ps).apply := by
  rw [respond, Response.moves, List.map_map]
  exact zipWith_add_sub _ h

end TargetShape

namespace Goal

/-- On any nodes, whatever it responded before, a shape matching goal moves them onto an image of its
shape under one orthogonal matrix and one scale, about their centroid. All distances are those of the
shape times the scale, which is one unless scaling is allowed, and the centroid stays. Only a planar
shape can be mirrored. -/
theorem Built.places_similarly {g : Goal ℝ} (hg : g.Built) {target : List (Vec3 ℝ)}
    {allowScaling : Bool} (haim : g.aim = .shapeMatching (.ofPoints target) allowScaling)
    (pool : Pool ℝ) {nodes : List Nat} (hnodes : nodes.length = g.nodeCount)
    {moves : List (Vec3 ℝ)} (hmoves : moves.length = g.nodeCount) {weights : List ℝ}
    (hweights : weights.length = g.nodeCount)
    (hpivots : let h := (TargetShape.ofPoints target).crossCovariance (pool.positions nodes)
      ∀ rho ∈ Svd3.pivots (Svd3.sortedColumns h), ¬(0 < rho ∧ rho ≤ Svd3.pivotTolerance)) :
    let after := ({ g with nodes, moves, weights } : Goal ℝ).compute pool
    let before := pool.positions nodes
    let moved := before.zipWith (· + ·) after.moves
    ∃ (r : Mat3 ℝ) (c : ℝ), r.IsOrthogonal ∧ 0 ≤ c ∧ (allowScaling = false → c = 1) ∧
      ((TargetShape.ofPoints target).planar = false → r.det = 1) ∧
      moved = target.map (fun t =>
        r * (t - Vec3.centroid target) * c + Vec3.centroid before) ∧
      (∀ (i j : Nat) (p q s t : Vec3 ℝ), moved[i]? = some p → moved[j]? = some q →
        target[i]? = some s → target[j]? = some t → (p - q).norm = c * (s - t).norm) ∧
      Vec3.centroid moved = Vec3.centroid before := by
  intro after before moved
  set shape := TargetShape.ofPoints target
  set x := Placement.ofPoints shape allowScaling before
  have hsimilar : x.IsSimilarity shape allowScaling := TargetShape.isSimilarity_ofPoints hpivots
  have hpoints : shape.points = target.map (· - Vec3.centroid target) := rfl
  have hcount : before.length = g.nodeCount := (List.length_map ..).trans hnodes
  have hlength : before.length = shape.points.length := by
    have hfits := hg.sound.fits
    rw [haim] at hfits
    exact hcount.trans hfits.symm
  have hafter : after.moves = (shape.respond allowScaling before).moves := by
    have hrespond : after.moves = (g.aim.respond g.nodeCount before).moves :=
      congrArg Goal.moves ((hg.sound.placed nodes hmoves hweights).compute_eq hnodes pool)
    rw [hrespond, haim]
    rfl
  have hmoved : moved = target.map fun t => x.apply (t - Vec3.centroid target) := by
    have hplaced : before.zipWith (· + ·) (shape.respond allowScaling before).moves =
        shape.points.map x.apply := TargetShape.zipWith_moves hlength
    rw [← hafter, hpoints, List.map_map] at hplaced
    exact hplaced
  refine ⟨x.rotation, x.scale, hsimilar.orthogonal, hsimilar.scale_nonneg, hsimilar.scale_eq_one,
    hsimilar.det_eq_one, ?_, fun i j p q s t hp hq hs ht => ?_, ?_⟩
  · rw [hmoved, ← Placement.center_ofPoints shape allowScaling before]
    rfl
  · rw [hmoved, List.getElem?_map, hs] at hp
    rw [hmoved, List.getElem?_map, ht] at hq
    cases hp
    cases hq
    rw [Placement.norm_apply_sub hsimilar.orthogonal hsimilar.scale_nonneg, sub_sub_sub_cancel_right]
  · refine Vec3.centroid_zipWith_add ?_ ?_
    · rw [hafter, Response.length_moves, TargetShape.respond, List.length_map, List.length_zip,
        ← hlength, Nat.min_self]
    · rw [hafter]
      exact TargetShape.sum_moves_respond (TargetShape.isCentered_ofPoints target).sum_points
        hlength.symm allowScaling

/-- Six points along the axes and their mirror image in the horizontal plane, which is no rotation of
them. -/
theorem Built.places_similarly_mirrored :
    let target : List (Vec3 ℝ) :=
      [⟨3, 0, 0⟩, ⟨-3, 0, 0⟩, ⟨0, 2, 0⟩, ⟨0, -2, 0⟩, ⟨0, 0, 1⟩, ⟨0, 0, -1⟩]
    let pool : Pool ℝ := #[.atRest ⟨3, 0, 0⟩, .atRest ⟨-3, 0, 0⟩, .atRest ⟨0, 2, 0⟩,
      .atRest ⟨0, -2, 0⟩, .atRest ⟨0, 0, -1⟩, .atRest ⟨0, 0, 1⟩]
    let nodes := [0, 1, 2, 3, 4, 5]
    let g : Goal ℝ := ofAim (.shapeMatching (.ofPoints target) true) target 1
    let h := (TargetShape.ofPoints target).crossCovariance (pool.positions nodes)
    let moved := (pool.positions nodes).zipWith (· + ·)
      (({ g with nodes } : Goal ℝ).compute pool).moves
    (g.Built ∧ (TargetShape.ofPoints target).planar = false ∧
      ∀ rho ∈ Svd3.pivots (Svd3.sortedColumns h), ¬(0 < rho ∧ rho ≤ Svd3.pivotTolerance)) ∧
    ∃ (r : Mat3 ℝ) (c : ℝ), r.IsRotation ∧ 0 ≤ c ∧
      moved = target.map (fun t => r * t * c) ∧ Vec3.centroid moved = 0 := by
  intro target pool nodes g h moved
  have hmade : shapeMatching target target true 1 = .ok g :=
    shapeMatching_eq_ok_iff.mpr ⟨by simp [target], usable_real_iff.mpr zero_le_one, rfl, rfl⟩
  have hbuilt : g.Built := .made (.shapeMatching hmade) (.of_shapeless rfl)
  have hnodes : nodes.length = g.nodeCount := rfl
  have hsum : target.sum = 0 := by
    ext <;> simp [target]
  have htarget : Vec3.centroid target = 0 := Vec3.centroid_eq_zero hsum
  have hpositions : pool.positions nodes =
      [⟨3, 0, 0⟩, ⟨-3, 0, 0⟩, ⟨0, 2, 0⟩, ⟨0, -2, 0⟩, ⟨0, 0, -1⟩, ⟨0, 0, 1⟩] := rfl
  have hbefore : Vec3.centroid (pool.positions nodes) = 0 := by
    apply Vec3.centroid_eq_zero
    rw [hpositions]
    ext <;> simp
  have hpoints : (TargetShape.ofPoints target).points = target := TargetShape.points_eq hsum
  have hcross : h = .diagonal ⟨18, 8, -2⟩ := by
    simp only [h, TargetShape.crossCovariance, hpoints, hbefore]
    rw [hpositions]
    ext <;> norm_num [target, Mat3.outer, Mat3.diagonal]
  have hpivots : ∀ rho ∈ Svd3.pivots (Svd3.sortedColumns h),
      ¬(0 < rho ∧ rho ≤ Svd3.pivotTolerance) := by
    have htolerance : (Svd3.pivotTolerance : ℝ) < 8 := by
      rw [Svd3.pivotTolerance, Scalar.ofScientific_real]
      norm_num
    have hsorted : Svd3.sortedColumns h = h := by
      rw [hcross]
      exact congrArg Prod.fst
        (Svd3.sortColumns_rightRotation_diagonal (by norm_num) (by norm_num))
    rw [hsorted, hcross, Svd3.pivots_diagonal (htolerance.trans (by norm_num)) htolerance]
    rintro rho hmem ⟨-, hle⟩
    simp only [List.mem_cons, List.not_mem_nil, or_false, or_self_left] at hmem
    rcases hmem with rfl | rfl <;> linarith
  have hplanar : (TargetShape.ofPoints target).planar = false := by
    refine TargetShape.planar_eq_false (d := ⟨18, 8, 2⟩) hsum ?_ ?_
    · ext <;> norm_num [target, Mat3.outer, Mat3.diagonal]
    · rw [TargetShape.planarTolerance, Scalar.ofScientific_real]
      norm_num
  obtain ⟨r, c, horthogonal, hscale, -, hdet, hmoved, -, hcentroid⟩ :=
    hbuilt.places_similarly rfl pool hnodes hbuilt.sound.moves_length hbuilt.sound.weights_length
      hpivots
  rw [htarget, hbefore] at hmoved
  simp only [sub_zero, add_zero] at hmoved
  exact ⟨⟨hbuilt, hplanar, hpivots⟩, r, c, Mat3.isRotation_iff.mpr ⟨horthogonal, hdet hplanar⟩,
    hscale, hmoved, hcentroid.trans hbefore⟩

end Goal
end Relaxation
