import Relaxation.Proofs.Domain.Pairwise
import Relaxation.Proofs.Geometry.Rotation
import Relaxation.Proofs.Goal.Response
import Relaxation.Proofs.Solver.Lawful

/-!
# The angle that a goal reaches

The bisector of two arms and the normal that it is turned about have fallbacks for arms that are
opposite, folded or too short. Whichever of them were taken, as long as the normal does not hang on
rounding (`AngleAtVertex.Definite`) it is at right angles to the bisector and to the first arm, and it
has the sense of the turn between the two (`AngleAtVertex.isAxis_normal`). So in exact arithmetic the
arms end at the angle asked for, and arms that make it already stay (`Goal.Built.reaches_angle`).
-/

namespace Relaxation

namespace AngleAtVertex

variable {ba bc : Vec3 ℝ}

/-- The arms have an axis that does not hang on rounding: their normal is nothing at all or long
enough, or else the first arm and the bisector have one that is. -/
def Definite (ba bc : Vec3 ℝ) : Prop :=
  ba.cross bc = 0 ∨ ¬(ba.cross bc).almostZero 1e-12 = true ∨
    ¬(ba.normalize.cross (bisector ba bc)).almostZero 1e-12 = true

/-- The arms are opposite or not nearly so. -/
def Bisectable (ba bc : Vec3 ℝ) : Prop :=
  ba.normalize + bc.normalize = 0 ∨ ¬(ba.normalize + bc.normalize).almostZero 1e-9 = true

/-! ## The bisector -/

/-- What bisects arms that are nearly opposite. -/
noncomputable def across (ba bc : Vec3 ℝ) : Vec3 ℝ :=
  if (ba.cross bc).almostZero 1e-12 then ba.normalize.perpendicular
  else (ba.cross bc).cross ba.normalize

theorem bisector_of_opposite (h : (ba.normalize + bc.normalize).almostZero 1e-9 = true) :
    bisector ba bc = (across ba bc).normalize := if_pos h

theorem bisector_of_not_opposite (h : ¬(ba.normalize + bc.normalize).almostZero 1e-9 = true) :
    bisector ba bc = (ba.normalize + bc.normalize).normalize := if_neg h

theorem across_dot (ba bc : Vec3 ℝ) : (across ba bc).dot ba.normalize = 0 := by
  unfold across
  split
  · exact Vec3.perpendicular_dot_self _
  · exact Vec3.cross_dot_right ..

theorem across_ne_zero (hba : ba ≠ 0) (bc : Vec3 ℝ) : across ba bc ≠ 0 := by
  have hua := Vec3.normalize_ne_zero hba
  unfold across
  split
  case isTrue => exact Vec3.perpendicular_ne_zero hua
  case isFalse hnormal =>
    refine Vec3.cross_ne_zero (Vec3.ne_zero_of_not_almostZero (by norm_num) hnormal) hua ?_
    rw [Vec3.dot_normalize_right, Vec3.cross_dot_left, zero_mul]

theorem normSq_bisector (hba : ba ≠ 0) (bc : Vec3 ℝ) : (bisector ba bc).normSq = 1 := by
  by_cases h : (ba.normalize + bc.normalize).almostZero 1e-9 = true
  · rw [bisector_of_opposite h, Vec3.normSq_normalize (across_ne_zero hba bc)]
  · rw [bisector_of_not_opposite h]
    exact Vec3.normSq_normalize (Vec3.ne_zero_of_not_almostZero (by norm_num) h)

theorem dot_bisector_of_opposite (h : (ba.normalize + bc.normalize).almostZero 1e-9 = true) :
    ba.normalize.dot (bisector ba bc) = 0 := by
  rw [bisector_of_opposite h, Vec3.dot_normalize_right, Vec3.dot_comm, across_dot, zero_mul]

/-- The bisector is as long as it takes to reach half of the sum of the unit arms. -/
theorem dot_bisector_of_not_opposite (hba : ba ≠ 0) (hbc : bc ≠ 0)
    (h : ¬(ba.normalize + bc.normalize).almostZero 1e-9 = true) :
    ba.normalize.dot (bisector ba bc) = (ba.normalize + bc.normalize).norm / 2 := by
  set total := ba.normalize + bc.normalize with htotal
  have hne : total.norm ≠ 0 :=
    (Vec3.norm_pos (Vec3.ne_zero_of_not_almostZero (by norm_num) h)).ne'
  have hhalf : 2 * ba.normalize.dot total = total.norm * total.norm := by
    have hua := Vec3.normSq_normalize hba
    have huc := Vec3.normSq_normalize hbc
    rw [Vec3.norm_mul_self, htotal]
    simp only [Vec3.normSq, Vec3.dot, Vec3.add_x, Vec3.add_y, Vec3.add_z] at hua huc ⊢
    linear_combination hua - huc
  rw [bisector_of_not_opposite h, ← htotal, Vec3.dot_normalize_right]
  field_simp
  linarith

theorem dot_bisector_nonneg (hba : ba ≠ 0) (hbc : bc ≠ 0) :
    0 ≤ ba.normalize.dot (bisector ba bc) := by
  by_cases h : (ba.normalize + bc.normalize).almostZero 1e-9 = true
  · rw [dot_bisector_of_opposite h]
  · rw [dot_bisector_of_not_opposite hba hbc h]
    exact div_nonneg (Vec3.norm_nonneg _) zero_le_two

/-- One unit arm is the other one reflected in the bisector. -/
theorem reflect_bisector (hba : ba ≠ 0) (hbc : bc ≠ 0) (h : Bisectable ba bc) :
    bc.normalize =
      bisector ba bc * (2 * ba.normalize.dot (bisector ba bc)) - ba.normalize := by
  by_cases hnear : (ba.normalize + bc.normalize).almostZero 1e-9 = true
  · have hopposite : ba.normalize + bc.normalize = 0 := h.resolve_right (not_not_intro hnear)
    rw [dot_bisector_of_opposite hnear, mul_zero, Vec3.mul_real, zero_smul, zero_sub]
    exact eq_neg_of_add_eq_zero_right hopposite
  · rw [dot_bisector_of_not_opposite hba hbc hnear, mul_div_cancel₀ _ two_ne_zero,
      bisector_of_not_opposite hnear,
      Vec3.normalize_mul_norm (Vec3.ne_zero_of_not_almostZero (by norm_num) hnear),
      add_sub_cancel_left]

theorem bisector_dot_other_arm (hba : ba ≠ 0) (hbc : bc ≠ 0) (h : Bisectable ba bc) :
    (bisector ba bc).dot bc.normalize = ba.normalize.dot (bisector ba bc) := by
  rw [reflect_bisector hba hbc h, sub_eq_add_neg, Vec3.dot_add, Vec3.dot_mul, Vec3.dot_neg,
    ← Vec3.normSq, normSq_bisector hba, Vec3.dot_comm (bisector ba bc)]
  ring

theorem bisector_cross_other_arm (hba : ba ≠ 0) (hbc : bc ≠ 0) (h : Bisectable ba bc) :
    (bisector ba bc).cross bc.normalize = ba.normalize.cross (bisector ba bc) := by
  rw [reflect_bisector hba hbc h, sub_eq_add_neg, Vec3.cross_add, Vec3.cross_mul, Vec3.cross_self,
    Vec3.mul_real, smul_zero, zero_add, Vec3.cross_neg, ← Vec3.cross_swap]

/-! ## The axis -/

/-- The normal is at right angles to the first arm and to the bisector, and has the sense of the turn
from the one to the other. -/
structure IsAxis (ba bc normal : Vec3 ℝ) : Prop where
  dot_bisector : normal.dot (bisector ba bc) = 0
  dot_arm : normal.dot ba.normalize = 0
  sense : 0 ≤ normal.dot (ba.normalize.cross (bisector ba bc))

theorem IsAxis.dot_other_arm {normal : Vec3 ℝ} (haxis : IsAxis ba bc normal) (hba : ba ≠ 0)
    (hbc : bc ≠ 0) (h : Bisectable ba bc) : normal.dot bc.normalize = 0 := by
  rw [reflect_bisector hba hbc h, sub_eq_add_neg, Vec3.dot_add, Vec3.dot_mul, haxis.dot_bisector,
    Vec3.dot_neg, haxis.dot_arm, zero_mul, neg_zero, add_zero]

theorem cross_across (hba : ba ≠ 0) (h : ¬(ba.cross bc).almostZero 1e-12 = true) :
    ba.normalize.cross (across ba bc) = ba.cross bc := by
  rw [across, if_neg h, Vec3.cross_cross_self, Vec3.normSq_normalize hba,
    Vec3.dot_normalize_right, Vec3.cross_dot_left, zero_mul, Vec3.mul_real, Vec3.mul_real, one_smul,
    zero_smul, sub_zero]

theorem exists_cross_bisector (hba : ba ≠ 0) (h : ¬(ba.cross bc).almostZero 1e-12 = true) :
    ∃ t : ℝ, 0 ≤ t ∧ ba.normalize.cross (bisector ba bc) = ba.cross bc * t := by
  by_cases hnear : (ba.normalize + bc.normalize).almostZero 1e-9 = true
  · refine ⟨(across ba bc).norm⁻¹, inv_nonneg.mpr (Vec3.norm_nonneg _), ?_⟩
    rw [bisector_of_opposite hnear, Vec3.cross_normalize_right, cross_across hba h]
  · refine ⟨ba.norm⁻¹ * bc.norm⁻¹ * (ba.normalize + bc.normalize).norm⁻¹, ?_, ?_⟩
    · have hinv : ∀ v : Vec3 ℝ, 0 ≤ v.norm⁻¹ := fun v => inv_nonneg.mpr v.norm_nonneg
      exact mul_nonneg (mul_nonneg (hinv _) (hinv _)) (hinv _)
    · rw [bisector_of_not_opposite hnear, Vec3.cross_normalize_right, Vec3.cross_add,
        Vec3.cross_self, zero_add, Vec3.cross_normalize]
      simp only [Vec3.mul_real, smul_smul]
      rw [mul_comm]

theorem isAxis_cross (hba : ba ≠ 0) (h : ¬(ba.cross bc).almostZero 1e-12 = true) :
    IsAxis ba bc (ba.cross bc) where
  dot_bisector := by
    by_cases hnear : (ba.normalize + bc.normalize).almostZero 1e-9 = true
    · rw [bisector_of_opposite hnear, Vec3.dot_normalize_right, across, if_neg h, Vec3.dot_comm,
        Vec3.cross_dot_left, zero_mul]
    · rw [bisector_of_not_opposite hnear, Vec3.dot_normalize_right, Vec3.dot_add,
        Vec3.dot_normalize_right, Vec3.dot_normalize_right, Vec3.cross_dot_left,
        Vec3.cross_dot_right, zero_mul, zero_mul, add_zero, zero_mul]
  dot_arm := by rw [Vec3.dot_normalize_right, Vec3.cross_dot_left, zero_mul]
  sense := by
    obtain ⟨t, ht, heq⟩ := exists_cross_bisector hba h
    rw [heq, Vec3.dot_mul]
    exact mul_nonneg (Vec3.normSq_nonneg _) ht

theorem isAxis_cross_bisector (ba bc : Vec3 ℝ) :
    IsAxis ba bc (ba.normalize.cross (bisector ba bc)) where
  dot_bisector := Vec3.cross_dot_right ..
  dot_arm := Vec3.cross_dot_left ..
  sense := Vec3.normSq_nonneg _

/-- Folded arms lie along their bisector, and any vector at right angles to them will do. -/
theorem isAxis_perpendicular (hfolded : bc.normalize = ba.normalize)
    (h : ¬(ba.normalize + bc.normalize).almostZero 1e-9 = true) :
    IsAxis ba bc ba.normalize.perpendicular where
  dot_bisector := by
    rw [bisector_of_not_opposite h, hfolded, Vec3.dot_normalize_right, Vec3.dot_add,
      Vec3.perpendicular_dot_self, add_zero, zero_mul]
  dot_arm := Vec3.perpendicular_dot_self _
  sense := by
    rw [bisector_of_not_opposite h, hfolded, Vec3.cross_normalize_right, Vec3.cross_add,
      Vec3.cross_self, add_zero, Vec3.mul_real, smul_zero, Vec3.dot_zero]

/-- Where nearly opposite arms have the bisector across, it is at right angles to the first arm. -/
theorem not_almostZero_cross_bisector (hba : ba ≠ 0)
    (h : (ba.normalize + bc.normalize).almostZero 1e-9 = true) :
    ¬(ba.normalize.cross (bisector ba bc)).almostZero 1e-12 = true := by
  refine Vec3.not_almostZero_of_unit ?_
  rw [Vec3.normSq_cross, Vec3.normSq_normalize hba, normSq_bisector hba, dot_bisector_of_opposite h]
  norm_num

theorem isAxis_normal (hba : ba ≠ 0) (hbc : bc ≠ 0) (h : Definite ba bc) :
    IsAxis ba bc (normal ba bc (bisector ba bc)) := by
  unfold normal
  dsimp only
  split_ifs with hcross hacross
  -- Without a normal the arms are folded or opposite, and opposite arms have one with what is across.
  · have hzero : ba.cross bc = 0 :=
      h.resolve_right (not_or.mpr ⟨not_not_intro hcross, not_not_intro hacross⟩)
    have hnear : ¬(ba.normalize + bc.normalize).almostZero 1e-9 = true :=
      fun hnear => not_almostZero_cross_bisector hba hnear hacross
    rcases Vec3.normalize_eq_or_of_cross_eq_zero hba hbc hzero with hfolded | hstraight
    · exact isAxis_perpendicular hfolded hnear
    · rw [hstraight] at hnear
      exact absurd (by simp [Vec3.almostZero]) hnear
  · exact isAxis_cross_bisector ba bc
  · exact isAxis_cross hba hcross

/-! ## The directions -/

/-- The unit vector that the bisector is turned about. -/
noncomputable def axis (ba bc : Vec3 ℝ) : Vec3 ℝ := (normal ba bc (bisector ba bc)).normalize

theorem directions_eq (size : ℝ) (ba bc : Vec3 ℝ) :
    directions size ba bc =
      (Mat3.rotation (axis ba bc) (-(size / 2)) * bisector ba bc,
        Mat3.rotation (axis ba bc) (size / 2) * bisector ba bc) := by
  have hhalf : (0.5 : ℝ) * size = size / 2 := by
    rw [Scalar.ofScientific_real]
    ring
  rw [directions, Vec3.div_norm, hhalf, axis]

theorem spoke_axis (hba : ba ≠ 0) (hbc : bc ≠ 0) (h : Definite ba bc) :
    Vec3.Spoke (axis ba bc) (bisector ba bc) where
  axis_unit := Vec3.normSq_normalize (Domain.normal_ne_zero hba)
  unit := normSq_bisector hba bc
  perpendicular := by
    rw [axis, Vec3.dot_comm, Vec3.dot_normalize_right, Vec3.dot_comm,
      (isAxis_normal hba hbc h).dot_bisector, zero_mul]

theorem axis_dot (v : Vec3 ℝ) : (axis ba bc).dot v =
    (normal ba bc (bisector ba bc)).dot v * (normal ba bc (bisector ba bc)).norm⁻¹ := by
  rw [axis, Vec3.dot_comm, Vec3.dot_normalize_right, Vec3.dot_comm]

theorem axis_of_not_almostZero (h : ¬(ba.cross bc).almostZero 1e-12 = true) :
    axis ba bc = (ba.cross bc).normalize := congrArg Vec3.normalize (if_neg h)

section Turned

variable (size : ℝ) (hba : ba ≠ 0) (hbc : bc ≠ 0) (h : Definite ba bc)

include hba hbc h

theorem normSq_directions :
    (directions size ba bc).1.normSq = 1 ∧ (directions size ba bc).2.normSq = 1 := by
  have hspoke := spoke_axis hba hbc h
  rw [directions_eq]
  exact ⟨hspoke.normSq_rotation _, hspoke.normSq_rotation _⟩

theorem dot_directions :
    (directions size ba bc).1.dot (directions size ba bc).2 = Real.cos size := by
  rw [directions_eq, (spoke_axis hba hbc h).dot_rotations, sub_neg_eq_add, add_halves]

theorem cross_directions :
    (directions size ba bc).1.cross (directions size ba bc).2 = axis ba bc * Real.sin size := by
  rw [directions_eq, (spoke_axis hba hbc h).cross_rotations, sub_neg_eq_add, add_halves]

theorem axis_dot_directions :
    (axis ba bc).dot (directions size ba bc).1 = 0 ∧
      (axis ba bc).dot (directions size ba bc).2 = 0 := by
  have hspoke := spoke_axis hba hbc h
  rw [directions_eq]
  exact ⟨hspoke.axis_dot_rotation _, hspoke.axis_dot_rotation _⟩

end Turned

/-- The directions of arms that span a plane are in it. -/
theorem mul_mem_span {v : Vec3 ℝ} (hcross : ¬(ba.cross bc).almostZero 1e-12 = true)
    (h : (axis ba bc).dot v = 0) (t : ℝ) : v * t ∈ Submodule.span ℝ {ba, bc} := by
  have hne := Vec3.ne_zero_of_not_almostZero (by norm_num) hcross
  refine Submodule.smul_mem _ t (Vec3.mem_span_of_cross_dot hne ?_)
  rw [axis_of_not_almostZero hcross, Vec3.dot_comm, Vec3.dot_normalize_right] at h
  rw [Vec3.dot_comm]
  exact (mul_eq_zero_iff_right (inv_ne_zero (Vec3.norm_pos hne).ne')).mp h

/-- The arms turned into their directions, at their lengths. -/
theorem turned_spec (hba : ba ≠ 0) (hbc : bc ≠ 0) (h : Definite ba bc) {size : ℝ}
    (hnonneg : 0 ≤ size) (hpi : size ≤ Real.pi) :
    let va := (directions size ba bc).1 * ba.norm
    let vc := (directions size ba bc).2 * bc.norm
    va.norm = ba.norm ∧ vc.norm = bc.norm ∧ Vec3.angle va vc = size ∧
      (¬(ba.cross bc).almostZero 1e-12 = true →
        va ∈ Submodule.span ℝ {ba, bc} ∧ vc ∈ Submodule.span ℝ {ba, bc} ∧
          va.cross vc =
            ba.cross bc * (ba.norm * bc.norm * Real.sin size / (ba.cross bc).norm)) := by
  intro va vc
  obtain ⟨hunit_a, hunit_c⟩ := normSq_directions size hba hbc h
  obtain ⟨haxis_a, haxis_c⟩ := axis_dot_directions size hba hbc h
  refine ⟨Vec3.norm_mul_norm hunit_a _, Vec3.norm_mul_norm hunit_c _, ?_, fun hcross =>
    ⟨mul_mem_span hcross haxis_a _, mul_mem_span hcross haxis_c _, ?_⟩⟩
  · rw [Vec3.angle_mul hunit_a hunit_c (Vec3.norm_pos hba) (Vec3.norm_pos hbc),
      dot_directions size hba hbc h, Real.arccos_cos hnonneg hpi]
  · rw [Vec3.mul_cross_mul, cross_directions size hba hbc h, axis_of_not_almostZero hcross,
      Vec3.normalize, Scalar.recip_real]
    simp only [Vec3.mul_real, smul_smul]
    congr 1
    ring

/-! ## Arms at the angle -/

/-- Half of the angle lies between an arm and the bisector. -/
theorem dot_bisector_eq_cos {size : ℝ} (hba : ba ≠ 0) (hbc : bc ≠ 0) (hbisect : Bisectable ba bc)
    (hnonneg : 0 ≤ size) (hpi : size ≤ Real.pi)
    (hsize : ba.normalize.dot bc.normalize = Real.cos size) :
    ba.normalize.dot (bisector ba bc) = Real.cos (size / 2) := by
  have hcos : 0 ≤ Real.cos (size / 2) :=
    Real.cos_nonneg_of_neg_pi_div_two_le_of_le (by linarith [Real.pi_pos]) (by linarith)
  have hdouble : Real.cos size = 2 * Real.cos (size / 2) ^ 2 - 1 := by
    rw [← Real.cos_two_mul, mul_div_cancel₀ size two_ne_zero]
  have hreflect : ba.normalize.dot bc.normalize =
      2 * ba.normalize.dot (bisector ba bc) ^ 2 - 1 := by
    rw [reflect_bisector hba hbc hbisect, sub_eq_add_neg, Vec3.dot_add, Vec3.dot_mul, Vec3.dot_neg,
      ← Vec3.normSq, Vec3.normSq_normalize hba]
    ring
  refine (pow_left_inj₀ (dot_bisector_nonneg hba hbc) hcos two_ne_zero).mp ?_
  linarith

/-- Arms at the angle asked for are where their directions are. -/
theorem directions_eq_self {size : ℝ} (hba : ba ≠ 0) (hbc : bc ≠ 0) (h : Definite ba bc)
    (hbisect : Bisectable ba bc) (hnonneg : 0 ≤ size) (hpi : size ≤ Real.pi)
    (hsize : ba.normalize.dot bc.normalize = Real.cos size) :
    directions size ba bc = (ba.normalize, bc.normalize) := by
  have haxis := isAxis_normal hba hbc h
  have hspoke := spoke_axis hba hbc h
  have hcos := dot_bisector_eq_cos hba hbc hbisect hnonneg hpi hsize
  have hsin : 0 ≤ Real.sin (size / 2) :=
    Real.sin_nonneg_of_nonneg_of_le_pi (by linarith) (by linarith)
  have hsense : 0 ≤ (axis ba bc).dot (ba.normalize.cross (bisector ba bc)) := by
    rw [axis_dot]
    exact mul_nonneg haxis.sense (inv_nonneg.mpr (Vec3.norm_nonneg _))
  have hdot_a : (axis ba bc).dot ba.normalize = 0 := by rw [axis_dot, haxis.dot_arm, zero_mul]
  have hdot_c : (axis ba bc).dot bc.normalize = 0 := by
    rw [axis_dot, haxis.dot_other_arm hba hbc hbisect, zero_mul]
  rw [directions_eq]
  refine Prod.ext (hspoke.rotation_eq (Vec3.normSq_normalize hba) hdot_a ?_ ?_)
    (hspoke.rotation_eq (Vec3.normSq_normalize hbc) hdot_c ?_ ?_)
  · rw [Vec3.dot_comm, hcos, Real.cos_neg]
  · rw [Vec3.cross_dot, Vec3.cross_swap, Vec3.dot_neg, Real.sin_neg, neg_mul_neg]
    exact mul_nonneg hsense hsin
  · rw [bisector_dot_other_arm hba hbc hbisect, hcos]
  · rw [Vec3.cross_dot, bisector_cross_other_arm hba hbc hbisect]
    exact mul_nonneg hsense hsin

/-! ## The goal -/

theorem respond_eq (size : ℝ) {a b c : Vec3 ℝ} (ha : ¬(a - b).almostZero 1e-12 = true)
    (hc : ¬(c - b).almostZero 1e-12 = true) :
    respond size [a, b, c] =
      [some (b + (directions size (a - b) (c - b)).1 * (a - b).norm - a), none,
        some (b + (directions size (a - b) (c - b)).2 * (c - b).norm - c)] :=
  if_neg (by rw [Bool.or_eq_true]; exact not_or.mpr ⟨ha, hc⟩)

end AngleAtVertex

namespace Goal

open AngleAtVertex in
/-- On any nodes, whatever it responded before, a goal for an angle turns the arms to it when they have
a definite axis. The vertex stays and so do the lengths of the arms; if they span a plane, they stay
in it and the one is turned to the other in the same sense. Arms that make the angle already are left
alone. -/
theorem Built.reaches_angle {g : Goal ℝ} (hg : g.Built) {size : ℝ} (haim : g.aim = .angle size)
    (pool : Pool ℝ) {nodes : List Nat} {moves : List (Vec3 ℝ)} (hmoves : moves.length = g.nodeCount)
    {weights : List ℝ} (hweights : weights.length = g.nodeCount) {a b c : Vec3 ℝ}
    (hpositions : pool.positions nodes = [a, b, c]) (ha : ¬(a - b).almostZero 1e-12 = true)
    (hc : ¬(c - b).almostZero 1e-12 = true) (hdefinite : Definite (a - b) (c - b)) :
    let after := ({ g with nodes, moves, weights } : Goal ℝ).compute pool
    ∃ a' c', (pool.positions nodes).zipWith (· + ·) after.moves = [a', b, c'] ∧
      (a' - b).norm = (a - b).norm ∧ (c' - b).norm = (c - b).norm ∧
      Vec3.angle (a' - b) (c' - b) = size ∧
      (¬((a - b).cross (c - b)).almostZero 1e-12 = true →
        a' - b ∈ Submodule.span ℝ {a - b, c - b} ∧ c' - b ∈ Submodule.span ℝ {a - b, c - b} ∧
          (a' - b).cross (c' - b) = (a - b).cross (c - b) *
            ((a - b).norm * (c - b).norm * Real.sin size / ((a - b).cross (c - b)).norm)) ∧
      (Vec3.angle (a - b) (c - b) = size → Bisectable (a - b) (c - b) →
        after.moves = [0, 0, 0]) := by
  intro after
  have hne_a : a - b ≠ 0 := Vec3.ne_zero_of_not_almostZero (by norm_num) ha
  have hne_c : c - b ≠ 0 := Vec3.ne_zero_of_not_almostZero (by norm_num) hc
  have hrange : 0 ≤ size ∧ size ≤ Real.pi := by
    have hlawful := hg.lawful.aim_lawful
    rwa [haim] at hlawful
  have hcount : g.nodeCount = 3 := by
    have hfits := hg.sound.fits
    rwa [haim] at hfits
  have hpositions_length : (pool.positions nodes).length = nodes.length := List.length_map ..
  have hnodes : nodes.length = g.nodeCount := by
    rw [hcount, ← hpositions_length, hpositions]
    rfl
  have hafter : after.moves =
      [b + (directions size (a - b) (c - b)).1 * (a - b).norm - a, 0,
        b + (directions size (a - b) (c - b)).2 * (c - b).norm - c] := by
    have hrespond : after.moves = (g.aim.respond g.nodeCount (pool.positions nodes)).moves :=
      congrArg Goal.moves ((hg.sound.placed nodes hmoves hweights).compute_eq hnodes pool)
    rw [hrespond, haim, hpositions, Aim.respond]
    exact congrArg Response.moves (respond_eq size ha hc)
  refine ⟨b + (directions size (a - b) (c - b)).1 * (a - b).norm,
    b + (directions size (a - b) (c - b)).2 * (c - b).norm, ?_, ?_⟩
  · rw [hpositions, hafter]
    simp
  rw [add_sub_cancel_left, add_sub_cancel_left]
  obtain ⟨hnorm_a, hnorm_c, hangle, hplane⟩ :=
    turned_spec hne_a hne_c hdefinite hrange.1 hrange.2
  refine ⟨hnorm_a, hnorm_c, hangle, hplane, fun hsize hbisect => ?_⟩
  have hcos : (a - b).normalize.dot (c - b).normalize = Real.cos size := by
    rw [← Vec3.cos_angle hne_a hne_c, hsize]
  rw [hafter, directions_eq_self hne_a hne_c hdefinite hbisect hrange.1 hrange.2 hcos,
    Vec3.normalize_mul_norm hne_a, Vec3.normalize_mul_norm hne_c]
  simp

/-- Opposite arms are turned to a right angle, and arms at right angles are left alone. -/
theorem Built.reaches_angle_right :
    let g : Goal ℝ := ofAim (.angle (Real.pi / 2)) [Vec3.xAxis, 0, Vec3.zAxis] 1
    let bent : Pool ℝ := #[.atRest Vec3.xAxis, .atRest 0, .atRest Vec3.zAxis]
    let straight : Pool ℝ := #[.atRest Vec3.xAxis, .atRest 0, .atRest (-Vec3.xAxis)]
    g.Built ∧
      (({ g with nodes := [0, 1, 2] } : Goal ℝ).compute bent).moves = [0, 0, 0] ∧
      ∃ a' c', (straight.positions [0, 1, 2]).zipWith (· + ·)
          (({ g with nodes := [0, 1, 2] } : Goal ℝ).compute straight).moves = [a', 0, c'] ∧
        Vec3.angle (a' - 0) (c' - 0) = Real.pi / 2 := by
  intro g bent straight
  have hrange : 0 ≤ Real.pi / 2 ∧ Real.pi / 2 ≤ Scalar.pi :=
    ⟨Real.pi_div_two_pos.le, half_le_self Real.pi_pos.le⟩
  have hmade : angle Vec3.xAxis 0 Vec3.zAxis (Real.pi / 2) 1 = .ok g :=
    angle_eq_ok_iff.mpr ⟨usable_real_iff.mpr zero_le_one, hrange, rfl⟩
  have hbuilt : g.Built := .made (.angle hmade) nofun
  have hx : (Vec3.xAxis : Vec3 ℝ).normSq = 1 := by simp [Vec3.normSq, Vec3.dot, Vec3.xAxis]
  have hz : (Vec3.zAxis : Vec3 ℝ).normSq = 1 := by simp [Vec3.normSq, Vec3.dot, Vec3.zAxis]
  have hxz : (Vec3.xAxis : Vec3 ℝ).dot Vec3.zAxis = 0 := by
    simp [Vec3.dot, Vec3.xAxis, Vec3.zAxis]
  have hlong : ∀ v : Vec3 ℝ, v.normSq = 1 → ¬(v - 0).almostZero 1e-12 = true := by
    intro v hv
    rw [sub_zero]
    exact Vec3.not_almostZero_of_unit hv
  refine ⟨hbuilt, ?_, ?_⟩
  · have hpositions : bent.positions [0, 1, 2] = [Vec3.xAxis, 0, Vec3.zAxis] := rfl
    have hdefinite : AngleAtVertex.Definite ((Vec3.xAxis : Vec3 ℝ) - 0) (Vec3.zAxis - 0) := by
      rw [sub_zero, sub_zero]
      refine .inr (.inl (Vec3.not_almostZero_of_unit ?_))
      rw [Vec3.normSq_cross, hx, hz, hxz]
      norm_num
    obtain ⟨_, _, _, _, _, _, _, hstays⟩ := hbuilt.reaches_angle rfl bent hbuilt.sound.moves_length
      hbuilt.sound.weights_length hpositions (hlong _ hx) (hlong _ hz) hdefinite
    rw [sub_zero, sub_zero] at hstays
    refine hstays ?_ (.inr fun hsmall => ?_)
    · rw [Vec3.angle, hxz, zero_div, Real.arccos_zero]
    · have hlt := Vec3.normSq_lt_of_almostZero hsmall
      rw [Vec3.normalize_of_unit hx, Vec3.normalize_of_unit hz] at hlt
      norm_num [Vec3.normSq, Vec3.dot, Vec3.xAxis, Vec3.zAxis] at hlt
  · have hpositions : straight.positions [0, 1, 2] = [Vec3.xAxis, 0, -Vec3.xAxis] := rfl
    have hdefinite : AngleAtVertex.Definite ((Vec3.xAxis : Vec3 ℝ) - 0) (-Vec3.xAxis - 0) := by
      refine .inl ?_
      rw [sub_zero, sub_zero, Vec3.cross_neg, Vec3.cross_self, neg_zero]
    obtain ⟨a', c', hplaces, _, _, hangle, _⟩ := hbuilt.reaches_angle rfl straight
      hbuilt.sound.moves_length hbuilt.sound.weights_length hpositions (hlong _ hx)
      (hlong _ (by rw [Vec3.normSq_neg, hx])) hdefinite
    exact ⟨a', c', hplaces, hangle⟩

end Goal
end Relaxation
