import Mathlib.LinearAlgebra.Matrix.Trace
import Relaxation.Goal.Basic
import Relaxation.Proofs.Linear.Procrustes
import Relaxation.Proofs.Lists

/-!
# Best placements

A shape matching goal moves its nodes onto the placement of its shape that is nearest to them in the
sense of least squares (`TargetShape.placement_optimal`), among the rotated shapes and, when the
shape is planar, among the mirrored ones as well. The misfit of a placement depends on its rotation
only through the overlap with the cross-covariance, which the decomposition of that matrix makes as
large as it can be.
-/

namespace Relaxation

open Matrix

namespace TargetShape

/-! ## Misfits -/

/-- The sum of the squared distances of the placed points to the points they are matched with. -/
noncomputable def misfit (shape : TargetShape ℝ) (ps : List (Vec3 ℝ)) (x : Placement ℝ) : ℝ :=
  ((ps.zip shape.points).map fun (p, t) => (x.apply t).distSq p).sum

/-- The sum of the products `(p - c) tᵀ` over the matched points, where `c` is the centroid of the
first ones. -/
noncomputable def crossCovariance (shape : TargetShape ℝ) (ps : List (Vec3 ℝ)) : Mat3 ℝ :=
  (ps.zip shape.points).foldl
    (fun acc (p, t) => acc + Mat3.outer (p - Vec3.centroid ps) t) (0 : Mat3 ℝ)

/-- The points are balanced about the origin, and `sizeSq` is the sum of their squared lengths. -/
structure IsCentered (shape : TargetShape ℝ) : Prop where
  sum_points : shape.points.sum = 0
  sizeSq_eq : shape.sizeSq = (shape.points.map Vec3.normSq).sum

theorem isCentered_ofPoints (target : List (Vec3 ℝ)) : (ofPoints target).IsCentered where
  sum_points := Vec3.sum_sub_centroid target
  sizeSq_eq := Scalar.sum_real _

theorem overlap_crossCovariance (shape : TargetShape ℝ) (ps : List (Vec3 ℝ)) (a : Mat3 ℝ) :
    a.overlap (shape.crossCovariance ps) =
      ((ps.zip shape.points).map fun (p, t) => (a * t).dot (p - Vec3.centroid ps)).sum := by
  have hstep : ∀ (b : Mat3 ℝ) (q : Vec3 ℝ × Vec3 ℝ),
      a.overlap (b + Mat3.outer (q.1 - Vec3.centroid ps) q.2) =
        a.overlap b + (a * q.2).dot (q.1 - Vec3.centroid ps) := by
    intro b q
    rw [Mat3.overlap_add, Mat3.overlap_outer]
  have hsum := apply_foldl_eq_add_sum hstep 0 (ps.zip shape.points)
  rw [Mat3.overlap_zero, zero_add] at hsum
  exact hsum

/-- The misfit of one pair, split at a point `m`. -/
theorem distSq_apply {x : Placement ℝ} (hx : x.rotation.IsOrthogonal) (m p t : Vec3 ℝ) :
    (x.apply t).distSq p =
      x.scale * x.scale * t.normSq - 2 * x.scale * (x.rotation * t).dot (p - m) +
        (p - m).normSq + 2 * x.scale * (x.rotation.transpose * (x.center - m)).dot t -
        2 * (x.center - m).dot (p - m) + (x.center - m).normSq := by
  rw [← hx.normSq_mul t, Mat3.transpose_mul_dot]
  simp only [Placement.apply, Vec3.distSq, Vec3.normSq, Vec3.dot, Vec3.sub_x, Vec3.sub_y,
    Vec3.sub_z, Vec3.add_x, Vec3.add_y, Vec3.add_z, Vec3.mul_x, Vec3.mul_y, Vec3.mul_z]
  ring

/-- The misfit of a list of pairs, split at a point `m`. -/
theorem sum_distSq_apply {x : Placement ℝ} (hx : x.rotation.IsOrthogonal) (m : Vec3 ℝ)
    (l : List (Vec3 ℝ × Vec3 ℝ)) :
    (l.map fun (p, t) => (x.apply t).distSq p).sum =
      x.scale * x.scale * ((l.map Prod.snd).map Vec3.normSq).sum -
        2 * x.scale * (l.map fun (p, t) => (x.rotation * t).dot (p - m)).sum +
        ((l.map Prod.fst).map fun p => (p - m).normSq).sum +
        2 * x.scale * (x.rotation.transpose * (x.center - m)).dot (l.map Prod.snd).sum -
        2 * (x.center - m).dot ((l.map Prod.fst).map (· - m)).sum +
        l.length * (x.center - m).normSq := by
  induction l with
  | nil => simp [Vec3.dot_zero]
  | cons pt l ih =>
    obtain ⟨p, t⟩ := pt
    rw [List.map_cons, List.sum_cons, ih]
    simp only [distSq_apply hx m p t, List.map_cons, List.sum_cons, Vec3.dot_add,
      List.length_cons, Nat.cast_succ]
    ring

/-- Away from the centroid every node adds to the misfit, and the rotation matters only through its
overlap with the cross-covariance. -/
theorem misfit_eq {shape : TargetShape ℝ} (hshape : shape.IsCentered) {ps : List (Vec3 ℝ)}
    (hlength : ps.length = shape.points.length) {x : Placement ℝ}
    (hx : x.rotation.IsOrthogonal) :
    shape.misfit ps x =
      x.scale * x.scale * shape.sizeSq - 2 * x.scale * x.rotation.overlap (shape.crossCovariance ps)
        + (ps.map fun p => (p - Vec3.centroid ps).normSq).sum +
        ps.length * (x.center - Vec3.centroid ps).normSq := by
  have hpairs : (ps.zip shape.points).length = ps.length := by
    rw [List.length_zip, hlength, min_self]
  rw [misfit, sum_distSq_apply hx (Vec3.centroid ps), List.map_fst_zip hlength.le,
    List.map_snd_zip hlength.ge, hpairs, hshape.sum_points, Vec3.sum_sub_centroid,
    ← hshape.sizeSq_eq, overlap_crossCovariance, Vec3.dot_zero, Vec3.dot_zero]
  ring

/-! ## The best placement -/

/-- The placements to choose from: a planar shape may be mirrored, and its size may change only when
scaling is allowed. -/
structure Admits (shape : TargetShape ℝ) (allowScaling : Bool) (x : Placement ℝ) : Prop where
  rotation : if shape.planar then x.rotation.IsOrthogonal else x.rotation.IsRotation
  scale : if allowScaling then 0 ≤ x.scale else x.scale = 1

theorem Admits.orthogonal {shape : TargetShape ℝ} {allowScaling : Bool} {x : Placement ℝ}
    (h : shape.Admits allowScaling x) : x.rotation.IsOrthogonal := by
  have hrotation := h.rotation
  split at hrotation
  · exact hrotation
  · exact hrotation.orthogonal

/-- The sign with which the best rotation takes the last pair of singular vectors. -/
noncomputable def sense (shape : TargetShape ℝ) (d : Svd3 ℝ) : ℝ :=
  if shape.planar ∧ d.s.z < 0 then -1 else 1

theorem sense_mul_self (shape : TargetShape ℝ) (d : Svd3 ℝ) :
    shape.sense d * shape.sense d = 1 := by
  unfold sense
  split <;> norm_num

/-- The largest overlap of a rotation that the shape admits with a decomposed matrix. -/
noncomputable def bestOverlap (shape : TargetShape ℝ) (d : Svd3 ℝ) : ℝ :=
  d.s.x + d.s.y + shape.sense d * d.s.z

/-- The rotation of largest overlap; the third direction is turned where the shape asks for it. -/
noncomputable def bestRotation (shape : TargetShape ℝ) (d : Svd3 ℝ) : Mat3 ℝ :=
  d.u * .diagonal ⟨1, 1, shape.sense d⟩ * d.v.transpose

section Svd

variable (shape : TargetShape ℝ) {d : Svd3 ℝ} (hu : d.u.IsRotation) (hv : d.v.IsRotation)

include hu hv

theorem det_bestRotation : (shape.bestRotation d).det = shape.sense d := by
  rw [bestRotation, Mat3.det_mul, Mat3.det_mul, Mat3.det_transpose, hu.det_eq_one, hv.det_eq_one]
  simp [Mat3.det, Mat3.diagonal]

theorem isOrthogonal_bestRotation : (shape.bestRotation d).IsOrthogonal :=
  (hu.orthogonal.mul (Mat3.isOrthogonal_diagonal (one_mul 1) (one_mul 1)
    (shape.sense_mul_self d))).mul hv.orthogonal.transpose

/-- The two changes of sign cancel unless the shape may stay mirrored. -/
theorem ofSvd_eq (allowScaling : Bool) (center : Vec3 ℝ) :
    Placement.ofSvd d shape allowScaling center =
      ⟨shape.bestRotation d, if allowScaling then shape.bestOverlap d / shape.sizeSq else 1,
        center⟩ := by
  have hflip : Placement.flipThird d.u = d.u * .diagonal ⟨1, 1, -1⟩ := by
    ext <;> simp [Placement.flipThird, Mat3.diagonal]
  have hback : Placement.flipThird (Placement.flipThird d.u) = d.u := by
    ext <;> simp [Placement.flipThird]
  have hkeep : d.u * .diagonal ⟨1, 1, 1⟩ = d.u := Mat3.mul_one d.u
  have hdet : ¬(d.u * d.v.transpose).det < 0 := by
    rw [(hu.mul hv.transpose).det_eq_one]
    exact not_lt.mpr zero_le_one
  have hdet_flip : (Placement.flipThird d.u * d.v.transpose).det < 0 := by
    rw [hflip, Mat3.det_mul, Mat3.det_mul, Mat3.det_transpose, hu.det_eq_one, hv.det_eq_one]
    simp [Mat3.det, Mat3.diagonal]
  unfold Placement.ofSvd bestRotation bestOverlap sense
  by_cases hz : d.s.z < 0
  · cases hplanar : shape.planar with
    | true => simp [hz, hflip]
    | false => simp [hz, hdet_flip, hback, hkeep]
  · simp [hz, hdet, hkeep]

theorem overlap_bestRotation :
    (shape.bestRotation d).overlap d.recompose = shape.bestOverlap d := by
  have hframes : d.u.transpose * shape.bestRotation d * d.v =
      .diagonal ⟨1, 1, shape.sense d⟩ := by
    apply Mat3.toMatrix_injective
    simp only [bestRotation, Mat3.toMatrix_mul, Mat3.toMatrix_transpose, Matrix.mul_assoc]
    rw [Mat3.isOrthogonal_iff.mp hv.orthogonal, Matrix.mul_one, ← Matrix.mul_assoc,
      Mat3.isOrthogonal_iff.mp hu.orthogonal, Matrix.one_mul]
  rw [Mat3.overlap_recompose, hframes, Mat3.overlap_diagonal]
  simp only [Mat3.diagonal, one_mul, bestOverlap]

/-- A placement by the best rotation is mirrored only if the shape is planar. -/
theorem admits_bestRotation {allowScaling : Bool} {scale : ℝ} (center : Vec3 ℝ)
    (hscale : if allowScaling then 0 ≤ scale else scale = 1) :
    shape.Admits allowScaling ⟨shape.bestRotation d, scale, center⟩ := by
  have horthogonal := isOrthogonal_bestRotation shape hu hv
  refine ⟨?_, hscale⟩
  split
  case isTrue => exact horthogonal
  case isFalse hplanar =>
    have hsense : shape.sense d = 1 := if_neg fun h => hplanar h.1
    exact Mat3.isRotation_iff.mpr ⟨horthogonal, (det_bestRotation shape hu hv).trans hsense⟩

end Svd

/-- A negative last singular value takes no more away than the first one gives. -/
theorem bestOverlap_nonneg_of_abs_le (shape : TargetShape ℝ) {d : Svd3 ℝ} (hy : 0 ≤ d.s.y)
    (hz : |d.s.z| ≤ d.s.x) : 0 ≤ shape.bestOverlap d := by
  obtain ⟨hlower, hupper⟩ := abs_le.mp hz
  unfold bestOverlap sense
  split <;> linarith

section Optimum

variable {shape : TargetShape ℝ} {d : Svd3 ℝ} (hu : d.u.IsRotation) (hv : d.v.IsRotation)
  (hyx : d.s.y ≤ d.s.x) (hzy : |d.s.z| ≤ d.s.y)

include hyx hzy

theorem bestOverlap_nonneg : 0 ≤ shape.bestOverlap d :=
  shape.bestOverlap_nonneg_of_abs_le ((abs_nonneg _).trans hzy) (hzy.trans hyx)

include hu hv

theorem overlap_le_bestOverlap {allowScaling : Bool} {x : Placement ℝ}
    (hx : shape.Admits allowScaling x) : x.rotation.overlap d.recompose ≤ shape.bestOverlap d := by
  have hrotation := hx.rotation
  unfold bestOverlap sense
  split at hrotation
  case isTrue hplanar =>
    have hle := hrotation.overlap_le hu hv hyx hzy
    by_cases hz : d.s.z < 0
    · rw [abs_of_neg hz] at hle
      rwa [if_pos ⟨hplanar, hz⟩, neg_one_mul]
    · rw [abs_of_nonneg (not_lt.mp hz)] at hle
      rwa [if_neg fun h => hz h.2, one_mul]
  case isFalse hplanar =>
    have hle := Mat3.IsRotation.overlap_le hu hv hyx hzy hrotation
    rwa [if_neg fun h => hplanar h.1, one_mul]

end Optimum

/-- The quadratic `c² n - 2 c g` in the scale is least at `g / n`. -/
theorem scale_le {c g n : ℝ} (hn : 0 < n) :
    g / n * (g / n) * n - 2 * (g / n) * g ≤ c * c * n - 2 * c * g := by
  have hg : g / n * n = g := div_mul_cancel₀ g hn.ne'
  have hsquare := mul_nonneg (mul_self_nonneg (c - g / n)) hn.le
  linear_combination hsquare + (2 * (g / n) - 2 * c) * hg

/-- The scale chosen for the largest overlap `g` leaves the quadratic least among those of the scales
and overlaps that are allowed. -/
theorem bestScale_le {allowScaling : Bool} {c f g n : ℝ} (hn : 0 < n) (hf : f ≤ g)
    (hc : if allowScaling then 0 ≤ c else c = 1) :
    let best := if allowScaling then g / n else 1
    best * best * n - 2 * best * g ≤ c * c * n - 2 * c * f := by
  cases allowScaling with
  | true =>
    have hoverlap := mul_le_mul_of_nonneg_left hf hc
    refine (scale_le hn (c := c)).trans ?_
    linarith
  | false =>
    obtain rfl : c = 1 := hc
    simp only [Bool.false_eq_true, if_false]
    linarith

/-- The misfit is least where the points are centered, the overlap is largest and the scale fits
it. -/
theorem misfit_le {shape : TargetShape ℝ} (hshape : shape.IsCentered) {ps : List (Vec3 ℝ)}
    (hlength : ps.length = shape.points.length) {x y : Placement ℝ}
    (hx : x.rotation.IsOrthogonal) (hy : y.rotation.IsOrthogonal)
    (hcenter : x.center = Vec3.centroid ps)
    (hquadratic : x.scale * x.scale * shape.sizeSq -
        2 * x.scale * x.rotation.overlap (shape.crossCovariance ps) ≤
      y.scale * y.scale * shape.sizeSq -
        2 * y.scale * y.rotation.overlap (shape.crossCovariance ps)) :
    shape.misfit ps x ≤ shape.misfit ps y := by
  have hnonneg : 0 ≤ ps.length * (y.center - Vec3.centroid ps).normSq :=
    mul_nonneg (Nat.cast_nonneg _) (Vec3.normSq_nonneg _)
  rw [misfit_eq hshape hlength hx, misfit_eq hshape hlength hy, hcenter, sub_self,
    Vec3.normSq_zero, mul_zero]
  linarith

theorem ofPoints_eq {shape : TargetShape ℝ} (hsize : 1e-24 ≤ shape.sizeSq) (allowScaling : Bool)
    (ps : List (Vec3 ℝ)) :
    Placement.ofPoints shape allowScaling ps =
      Placement.ofSvd (Svd3.decompose (shape.crossCovariance ps)) shape allowScaling
        (Vec3.centroid ps) := by
  unfold Placement.ofPoints
  rw [if_neg hsize.not_gt]
  rfl

theorem sum_normSq_moves (shape : TargetShape ℝ) (allowScaling : Bool) (ps : List (Vec3 ℝ)) :
    ((Response.moves (shape.respond allowScaling ps)).map Vec3.normSq).sum =
      shape.misfit ps (Placement.ofPoints shape allowScaling ps) := by
  rw [respond, Response.moves, List.map_map, List.map_map]
  rfl

/-- The goal moves its nodes onto the nearest placement of its shape: no other rotation, scale and
translation that the shape admits leaves a smaller sum of squared distances. -/
theorem placement_optimal (target ps : List (Vec3 ℝ)) (allowScaling : Bool)
    (hlength : ps.length = target.length) (hsize : 1e-24 ≤ (ofPoints target).sizeSq)
    (hsvd : let h := (ofPoints target).crossCovariance ps
      let d := Svd3.decompose h
      d.recompose = h ∧ d.s.y ≤ d.s.x ∧ |d.s.z| ≤ d.s.y) :
    let shape := ofPoints target
    let best := Placement.ofPoints shape allowScaling ps
    shape.Admits allowScaling best ∧
      (∀ x, shape.Admits allowScaling x → shape.misfit ps best ≤ shape.misfit ps x) ∧
      ((Response.moves (shape.respond allowScaling ps)).map Vec3.normSq).sum =
        shape.misfit ps best := by
  intro shape best
  have hshape : shape.IsCentered := isCentered_ofPoints target
  have hlength : ps.length = shape.points.length := by
    rw [hlength]
    exact (List.length_map ..).symm
  obtain ⟨hrecompose, hyx, hzy⟩ := hsvd
  have hu := Svd3.isRotation_u (shape.crossCovariance ps)
  have hv := Svd3.isRotation_v (shape.crossCovariance ps)
  have hbest : best = _ := (ofPoints_eq hsize allowScaling ps).trans (ofSvd_eq shape hu hv ..)
  generalize Svd3.decompose (shape.crossCovariance ps) = d at *
  have hsize_pos : 0 < shape.sizeSq := by
    refine lt_of_lt_of_le ?_ hsize
    rw [Scalar.ofScientific_real]
    norm_num
  have hadmits : shape.Admits allowScaling best := by
    rw [hbest]
    apply admits_bestRotation shape hu hv
    split
    · exact div_nonneg (bestOverlap_nonneg hyx hzy) hsize_pos.le
    · rfl
  have hoverlap_best := overlap_bestRotation shape hu hv
  refine ⟨hadmits, fun x hx => ?_, sum_normSq_moves shape allowScaling ps⟩
  have hoverlap := overlap_le_bestOverlap hu hv hyx hzy hx
  rw [hrecompose] at hoverlap hoverlap_best
  have hquadratic := bestScale_le hsize_pos hoverlap hx.scale
  apply misfit_le hshape hlength hadmits.orthogonal hx.orthogonal (by rw [hbest])
  rw [hbest]
  dsimp only
  rwa [hoverlap_best]

theorem points_eq {target : List (Vec3 ℝ)} (h : target.sum = 0) :
    (ofPoints target).points = target := by
  simp only [ofPoints, Vec3.centroid_eq_zero h, sub_zero, List.map_id_fun', id]

/-- A shape whose principal axes are the coordinate axes is solid unless it is flat along one. -/
theorem planar_eq_false {target : List (Vec3 ℝ)} {d : Vec3 ℝ} (h : target.sum = 0)
    (hcovariance : target.foldl (fun acc t => acc + Mat3.outer t t) (0 : Mat3 ℝ) = .diagonal d)
    (hsolid : planarTolerance * (d.x + d.y + d.z) ^ 3 < |d.x * d.y * d.z|) :
    (ofPoints target).planar = false := by
  have hdet : (Mat3.diagonal d).det = d.x * d.y * d.z := by
    simp [Mat3.det, Mat3.diagonal, mul_assoc]
  have htrace : (Mat3.diagonal d).trace = d.x + d.y + d.z := rfl
  have hpoints : target.map (· - Vec3.centroid target) = target := points_eq h
  simp only [ofPoints, hpoints, hcovariance, hdet, htrace, Scalar.abs_real]
  exact decide_eq_false (by linarith)

/-- A box of four corners and its mirror image. The best rotation turns nothing, and a scale below
one makes up for the axis that no rotation can bring into place. -/
theorem placement_optimal_mirrored :
    let target : List (Vec3 ℝ) := [⟨3, 2, 1⟩, ⟨3, -2, -1⟩, ⟨-3, 2, -1⟩, ⟨-3, -2, 1⟩]
    let ps : List (Vec3 ℝ) := [⟨3, 2, -1⟩, ⟨3, -2, 1⟩, ⟨-3, 2, 1⟩, ⟨-3, -2, -1⟩]
    let shape := ofPoints target
    let h := shape.crossCovariance ps
    let d := Svd3.decompose h
    ps.length = target.length ∧ 1e-24 ≤ shape.sizeSq ∧ shape.planar = false ∧
      (d.recompose = h ∧ d.s.y ≤ d.s.x ∧ |d.s.z| ≤ d.s.y) ∧
      ∀ allowScaling x, shape.Admits allowScaling x →
        shape.misfit ps (Placement.ofPoints shape allowScaling ps) ≤ shape.misfit ps x := by
  intro target ps
  have htarget : target.sum = 0 := by
    ext <;> simp [target]
  have hps : Vec3.centroid ps = 0 := by
    apply Vec3.centroid_eq_zero
    ext <;> simp [ps]
  have hpoints : (ofPoints target).points = target := points_eq htarget
  have hcross : (ofPoints target).crossCovariance ps = .diagonal ⟨36, 16, -4⟩ := by
    ext <;> norm_num [crossCovariance, hpoints, hps, target, ps, Mat3.outer, Mat3.diagonal]
  have hd : Svd3.decompose ((ofPoints target).crossCovariance ps) = ⟨1, ⟨36, 16, -4⟩, 1⟩ := by
    have htolerance : (Svd3.pivotTolerance : ℝ) < 16 := by
      rw [Svd3.pivotTolerance, Scalar.ofScientific_real]
      norm_num
    have hdecompose := Svd3.decompose_diagonal (d := ⟨36, 16, -4⟩)
      (htolerance.trans (by norm_num)) htolerance (by norm_num) (by norm_num)
    rwa [← hcross] at hdecompose
  have hsize : 1e-24 ≤ (ofPoints target).sizeSq := by
    rw [(isCentered_ofPoints target).sizeSq_eq, hpoints, Scalar.ofScientific_real]
    norm_num [target, Vec3.normSq, Vec3.dot]
  have hplanar : (ofPoints target).planar = false := by
    refine planar_eq_false (d := ⟨36, 16, 4⟩) htarget ?_ ?_
    · ext <;> norm_num [target, Mat3.outer, Mat3.diagonal]
    · rw [planarTolerance, Scalar.ofScientific_real]
      norm_num
  have hsvd : let h := (ofPoints target).crossCovariance ps
      let d := Svd3.decompose h
      d.recompose = h ∧ d.s.y ≤ d.s.x ∧ |d.s.z| ≤ d.s.y := by
    dsimp only
    rw [hd, hcross]
    refine ⟨?_, by norm_num, by norm_num⟩
    rw [Svd3.recompose, Mat3.transpose_one, Mat3.mul_one, Mat3.one_mul]
  refine ⟨rfl, hsize, hplanar, hsvd, fun allowScaling => ?_⟩
  exact (placement_optimal target ps allowScaling rfl hsize hsvd).2.1

end TargetShape
end Relaxation
