import Mathlib.Data.Real.Basic
import Relaxation.Proofs.Geometry.Segment
import Relaxation.Proofs.Goal.Response
import Relaxation.Proofs.Solver.Lawful

/-!
# Spheres leave segments

A sphere that reaches over a segment is pushed away from the point found on the segment, or at a right
angle to the segment if it is centered there. Neither changes the point found, so in exact arithmetic
the push, taken in full, brings the center to the distance of the radius (`Collision.norm_wayOut`). The
goal averages over the segments that a sphere reaches over (`Goal.Built.leaves_segments`).
-/

namespace Relaxation

namespace Collision

/-! ## The direction across a segment -/

section Sideways

variable {a b : Vec3 ℝ}

theorem norm_sideways (a b : Vec3 ℝ) : (sideways a b).norm = 1 := by
  unfold sideways
  dsimp only
  split
  case isTrue => exact Vec3.norm_eq_one (by simp [Vec3.zAxis, Vec3.normSq, Vec3.dot])
  case isFalse hlong =>
    have hne := Vec3.ne_zero_of_not_almostZero (by norm_num) hlong
    exact Vec3.norm_normalize (Vec3.perpendicular_ne_zero hne)

/-- A segment without direction is so short that it counts as its first end. -/
theorem short_of_almostZero (h : (b - a).almostZero 1e-12 = true) : (b - a).normSq < 1e-12 := by
  have hlt := Vec3.normSq_lt_of_almostZero h
  norm_num at hlt ⊢
  linarith

theorem dot_sideways (h : ¬(b - a).almostZero 1e-12 = true) : (b - a).dot (sideways a b) = 0 := by
  have hsideways : sideways a b = (b - a).perpendicular.normalize := if_neg h
  rw [hsideways, Vec3.normalize, Vec3.dot_mul, Vec3.dot_comm, Vec3.perpendicular_dot_self, zero_mul]

theorem closestOnSegment_add_sideways (p a b : Vec3 ℝ) (t : ℝ) :
    closestOnSegment (p + sideways a b * t) a b = closestOnSegment p a b := by
  by_cases h : (b - a).almostZero 1e-12 = true
  · have hshort := short_of_almostZero h
    rw [closestOnSegment_of_short hshort, closestOnSegment_of_short hshort]
  · refine closestOnSegment_add p ?_
    rw [Vec3.dot_mul, dot_sideways h, zero_mul]

end Sideways

/-! ## The way off a segment -/

/-- The offset of a center from the point found on a segment. -/
noncomputable def offset (p : Vec3 ℝ) (s : Vec3 ℝ × Vec3 ℝ) : Vec3 ℝ :=
  p - closestOnSegment p s.1 s.2

/-- The displacement of a center along its offset from a segment to the distance of the radius, across
the segment where there is almost no offset. -/
noncomputable def wayOut (radius : ℝ) (p : Vec3 ℝ) (s : Vec3 ℝ × Vec3 ℝ) : Vec3 ℝ :=
  (if (offset p s).almostZero 1e-12 then sideways s.1 s.2 else (offset p s).normalize) *
    (radius - (offset p s).norm)

theorem offSegment_eq (radius : ℝ) (p : Vec3 ℝ) (s : Vec3 ℝ × Vec3 ℝ) :
    offSegment radius p s.1 s.2 =
      if (offset p s).norm < radius then some (wayOut radius p s) else none := by
  unfold offSegment wayOut offset
  dsimp only
  rw [Vec3.div_norm]
  by_cases h : (p - closestOnSegment p s.1 s.2).norm < radius
  · rw [if_pos h, if_neg h.not_ge]
  · rw [if_neg h, if_pos (not_lt.mp h)]

variable {radius : ℝ} {p : Vec3 ℝ} {s : Vec3 ℝ × Vec3 ℝ}

theorem norm_offset_of_centered (hzero : offset p s = 0) (hradius : 0 ≤ radius) :
    (offset (p + wayOut radius p s) s).norm = radius := by
  have hway : wayOut radius p s = sideways s.1 s.2 * radius := by
    unfold wayOut
    rw [hzero, if_pos (by norm_num [Vec3.almostZero]), Vec3.norm, Vec3.normSq_zero,
      Scalar.sqrt_real, Real.sqrt_zero, sub_zero]
  have hfar : offset (p + wayOut radius p s) s = offset p s + sideways s.1 s.2 * radius := by
    rw [offset, hway, closestOnSegment_add_sideways, offset]
    abel
  rw [hfar, hzero, zero_add, Vec3.norm_mul, norm_sideways, one_mul, abs_of_nonneg hradius]

theorem norm_offset_of_apart (hapart : ¬(offset p s).almostZero 1e-12 = true)
    (hradius : 0 ≤ radius) : (offset (p + wayOut radius p s) s).norm = radius := by
  have hne := Vec3.ne_zero_of_not_almostZero (by norm_num) hapart
  have hpos := Vec3.norm_pos hne
  have hscale : 0 ≤ radius / (offset p s).norm := div_nonneg hradius hpos.le
  have hway : wayOut radius p s = offset p s * (radius / (offset p s).norm) - offset p s := by
    have hlength : (radius - (offset p s).norm) * (offset p s).norm⁻¹ =
        radius / (offset p s).norm - 1 := by field_simp
    rw [wayOut, if_neg hapart, Vec3.normalize, Scalar.recip_real, Vec3.mul_real, Vec3.mul_real,
      Vec3.mul_real, smul_smul, hlength, sub_smul, one_smul]
  have hmoved : p + wayOut radius p s =
      closestOnSegment p s.1 s.2 + offset p s * (radius / (offset p s).norm) := by
    rw [hway]
    nth_rewrite 3 [offset]
    abel
  have hfar : offset (p + wayOut radius p s) s = offset p s * (radius / (offset p s).norm) := by
    rw [hmoved]
    have htoward := closestOnSegment_toward p s.1 s.2 hscale
    exact (congrArg (_ - ·) htoward).trans (add_sub_cancel_left ..)
  rw [hfar, Vec3.norm_mul, abs_of_nonneg hscale, mul_div_cancel₀ _ hpos.ne']

/-- The way off a segment ends where the center is one radius from it. -/
theorem norm_wayOut (hradius : 0 ≤ radius)
    (h : offset p s = 0 ∨ ¬(offset p s).almostZero 1e-12 = true) :
    (offset (p + wayOut radius p s) s).norm = radius :=
  h.elim (norm_offset_of_centered · hradius) (norm_offset_of_apart · hradius)

/-- The segments that a sphere reaches over. -/
noncomputable def reached (radius : ℝ) (p : Vec3 ℝ) (segments : List (Vec3 ℝ × Vec3 ℝ)) :
    List (Vec3 ℝ × Vec3 ℝ) :=
  segments.filter fun s => (offset p s).norm < radius

theorem filterMap_offSegment (radius : ℝ) (p : Vec3 ℝ) (segments : List (Vec3 ℝ × Vec3 ℝ)) :
    (segments.filterMap fun (a, b) => offSegment radius p a b) =
      (reached radius p segments).map (wayOut radius p) := by
  rw [reached, ← List.filterMap_eq_map, List.filterMap_filter]
  refine List.filterMap_congr fun s _ => (offSegment_eq radius p s).trans ?_
  simp only [decide_eq_true_eq, Function.comp_apply]

end Collision

namespace Goal

/-- On any nodes, whatever it responded before, a goal that keeps spheres off segments moves each
center by the mean of its ways off the segments that its sphere reaches over, and leaves it alone if
there is none. Each of these ways ends at the distance of the radius from its segment, unless the center
is almost on the segment but not quite. So does the move when there is only one segment. -/
theorem Built.leaves_segments {g : Goal ℝ} (hg : g.Built) {segments : List (Vec3 ℝ × Vec3 ℝ)}
    {radius : ℝ} (haim : g.aim = .sphereStaticLineCollision segments radius) (pool : Pool ℝ)
    {nodes : List Nat} (hnodes : nodes.length = g.nodeCount) {moves : List (Vec3 ℝ)}
    (hmoves : moves.length = g.nodeCount) {weights : List ℝ}
    (hweights : weights.length = g.nodeCount) :
    let after := ({ g with nodes, moves, weights } : Goal ℝ).compute pool
    ∀ (i : Nat) (p : Vec3 ℝ), (pool.positions nodes)[i]? = some p →
      let reached := Collision.reached radius p segments
      ∃ m w, after.moves[i]? = some m ∧ after.weights[i]? = some w ∧
        (reached = [] → m = 0 ∧ w = 0) ∧
        (reached ≠ [] → m = (reached.map (Collision.wayOut radius p)).sum / (reached.length : ℝ) ∧
          w = g.weight) ∧
        ∀ s ∈ reached,
          Collision.offset p s = 0 ∨ ¬(Collision.offset p s).almostZero 1e-12 = true →
          (Collision.offset (p + Collision.wayOut radius p s) s).norm = radius ∧
            (reached = [s] → (Collision.offset (p + m) s).norm = radius) := by
  intro after i p hp reached
  have hsound := hg.sound.placed nodes hmoves hweights
  have hradius : 0 ≤ radius := by
    have hlawful := hg.lawful.aim_lawful
    rw [haim] at hlawful
    exact hlawful.2
  have hrespond : g.aim.respond g.nodeCount (pool.positions nodes) =
      ((pool.positions nodes).map fun p => (Collision.reached radius p segments).map
        (Collision.wayOut radius p)).map Response.averaged := by
    rw [haim, List.map_map]
    exact List.map_congr_left fun p _ =>
      congrArg Response.averaged (Collision.filterMap_offSegment radius p segments)
  obtain ⟨hmove, hweight⟩ := hsound.getElem?_compute_averaged hnodes hrespond
    (List.getElem?_map.trans (congrArg _ hp))
  refine ⟨Vec3.centroid (reached.map (Collision.wayOut radius p)),
    if (reached.map (Collision.wayOut radius p)).isEmpty then 0 else g.weight, hmove, hweight,
    ?_, ?_, ?_⟩
  · intro hnone
    rw [hnone]
    exact ⟨rfl, rfl⟩
  · intro hsome
    refine ⟨?_, if_neg (by rwa [List.isEmpty_map, List.isEmpty_iff])⟩
    rw [Vec3.centroid_eq, List.length_map]
  · intro s hs hoffset
    have hway := Collision.norm_wayOut hradius hoffset
    refine ⟨hway, fun hsingle => ?_⟩
    rw [hsingle, List.map_singleton, Vec3.centroid_singleton]
    exact hway

/-- A center on a segment leaves it to one side, and a second segment is out of reach. -/
theorem Built.leaves_segments_centered :
    let s : Vec3 ℝ × Vec3 ℝ := (-Vec3.xAxis, Vec3.xAxis)
    let segments := [s, ((Vec3.zAxis : Vec3 ℝ) * (3 : ℝ), (Vec3.zAxis : Vec3 ℝ) * (4 : ℝ))]
    let g : Goal ℝ := ofAim (.sphereStaticLineCollision segments 1) [0] 1
    let pool : Pool ℝ := #[.atRest 0]
    let after := ({ g with nodes := [0] } : Goal ℝ).compute pool
    (g.Built ∧ Collision.reached 1 0 segments = [s]) ∧
      ∃ m w, after.moves[0]? = some m ∧ after.weights[0]? = some w ∧ w = 1 ∧
        (Collision.offset (0 + m) s).norm = 1 := by
  intro s segments g pool after
  have hmade : sphereStaticLineCollision [0] segments 1 1 = .ok g :=
    sphereStaticLineCollision_eq_ok_iff.mpr ⟨Nat.le_refl _, usable_real_iff.mpr zero_le_one,
      usable_real_iff.mpr zero_le_one, rfl⟩
  have hbuilt : g.Built := .made (.sphereStaticLineCollision hmade) (.of_shapeless rfl)
  have hcentered : Collision.offset 0 s = 0 := by
    have hlong : (1e-12 : ℝ) ≤ (Vec3.xAxis - -(Vec3.xAxis : Vec3 ℝ)).normSq := by
      norm_num [Vec3.normSq, Vec3.dot, Vec3.xAxis]
    rw [Collision.offset, closestOnSegment_of_long hlong]
    ext <;> norm_num [Triangle.along, Vec3.normSq, Vec3.dot, Vec3.xAxis]
  have hfar : (Collision.offset 0 ((Vec3.zAxis : Vec3 ℝ) * (3 : ℝ),
      (Vec3.zAxis : Vec3 ℝ) * (4 : ℝ))).norm = 3 := by
    have hfirst : closestOnSegment 0 ((Vec3.zAxis : Vec3 ℝ) * (3 : ℝ))
        ((Vec3.zAxis : Vec3 ℝ) * (4 : ℝ)) = (Vec3.zAxis : Vec3 ℝ) * (3 : ℝ) := by
      rw [closestOnSegment_of_long (by norm_num [Vec3.normSq, Vec3.dot, Vec3.zAxis])]
      ext <;> norm_num [Triangle.along, Vec3.normSq, Vec3.dot, Vec3.zAxis]
    rw [Collision.offset, hfirst, zero_sub, Vec3.norm_neg, Vec3.norm_mul, abs_of_pos three_pos]
    simp [Vec3.norm, Vec3.normSq, Vec3.dot, Vec3.zAxis]
  have hreached : Collision.reached 1 0 segments = [s] := by
    have hnear : (Collision.offset 0 s).norm < 1 := by
      rw [hcentered]
      simp [Vec3.norm, Vec3.normSq_zero]
    simp only [Collision.reached, segments, List.filter_cons, List.filter_nil, hnear, hfar,
      decide_true, if_true]
    norm_num
  obtain ⟨m, w, hm, hw, -, hsome, hall⟩ := hbuilt.leaves_segments rfl pool
    (show [0].length = g.nodeCount from rfl) hbuilt.sound.moves_length hbuilt.sound.weights_length
    0 0 rfl
  rw [hreached] at hsome hall
  obtain ⟨-, hout⟩ := hall s (List.mem_singleton_self s) (.inl hcentered)
  exact ⟨⟨hbuilt, hreached⟩, m, w, hm, hw, (hsome (List.cons_ne_nil _ _)).2, hout rfl⟩

end Goal
end Relaxation
