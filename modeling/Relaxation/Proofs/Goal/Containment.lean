import Mathlib.Data.Real.Basic
import Relaxation.Proofs.Geometry.ConvexPolygon
import Relaxation.Proofs.Goal.Make
import Relaxation.Proofs.Goal.Polygon
import Relaxation.Proofs.Goal.Response

/-!
# Nodes are pushed back into convex polygons

Listed counter-clockwise, the vertices of a convex polygon have it to the left of all edges, so a place
is outside of the polygon exactly when it is beyond one of the edges. A push back onto the line of that
edge brings it nearer to everything on the other side of the line, at a corner as well, and so to every
place of the polygon (`Polygon.norm_pushed_sub_lt`). The goal that keeps nodes in a polygon turns the
list of vertices over if it has to (`Goal.keeps_in_polygon`).
-/

namespace Relaxation

theorem Scalar.eq_nil_of_lastMaxBy_eq_none {α β : Type} [Scalar α] {key : β → α} {bs : List β}
    (h : lastMaxBy key bs = none) : bs = [] := by
  cases bs with
  | nil => rfl
  | cons x xs => cases h

/-- The last of the greatest is in the list, and nothing in the list is greater. -/
theorem Scalar.lastMaxBy_greatest {β : Type} {key : β → ℝ} {bs : List β} {b : β}
    (h : lastMaxBy key bs = some b) : b ∈ bs ∧ ∀ b' ∈ bs, key b' ≤ key b := by
  cases bs with
  | nil => cases h
  | cons x xs =>
    have hpick : ∀ x y : β, ((if totalLt (key y) (key x) then x else y) = x ∨
        (if totalLt (key y) (key x) then x else y) = y) ∧
          key x ≤ key (if totalLt (key y) (key x) then x else y) ∧
          key y ≤ key (if totalLt (key y) (key x) then x else y) := fun x y => by
      split
      case isTrue hlt => exact ⟨.inl rfl, le_rfl, (totalLt_real_iff.mp hlt).le⟩
      case isFalse hle => exact ⟨.inr rfl, not_lt.mp (mt totalLt_real_iff.mpr hle), le_rfl⟩
    rw [← Option.some.inj h]
    exact foldl_pick (r := fun x y => key y ≤ key x) (fun _ => le_rfl) ge_trans hpick x xs

namespace Polygon

variable {boundary : List (Vec2 ℝ)} {p : Vec2 ℝ}

/-! ## Beyond an edge -/

/-- How far a place is beyond an edge. -/
noncomputable def reach (p : Vec2 ℝ) (edge : Vec2 ℝ × Vec2 ℝ) : ℝ :=
  (p - edge.1).dot (edgeNormal edge.2)

theorem reach_mul_norm {edge : Vec2 ℝ × Vec2 ℝ} (h : edge.2.norm ≠ 0) :
    reach p edge * edge.2.norm = -side edge (point p) := by
  simp only [reach, edgeNormal, side, point, Vec2.dot, Vec2.sub_x, Vec2.sub_y, Vec2.div_x, Vec2.div_y]
  field_simp
  ring

/-- The distance beyond an edge is negative on its inner side. -/
theorem reach_nonpos_iff {edge : Vec2 ℝ × Vec2 ℝ} (h : 0 < edge.2.norm) :
    reach p edge ≤ 0 ↔ 0 ≤ side edge (point p) := by
  rw [← neg_nonpos, ← reach_mul_norm h.ne', ← not_lt, ← not_lt, mul_pos_iff_of_pos_right h]

/-- Back along a unit vector, every place comes nearer that is behind the line which the push leads
to. -/
theorem norm_pushed_sub_lt {p q n : Vec2 ℝ} {depth : ℝ} (hn : n.dot n = 1) (hdepth : 0 < depth)
    (h : depth ≤ (p - q).dot n) : (p - n * depth - q).norm < (p - q).norm := by
  have hexpand : (p - n * depth - q).dot (p - n * depth - q) =
      (p - q).dot (p - q) - 2 * depth * (p - q).dot n + depth * depth * n.dot n := by
    simp only [Vec2.dot, Vec2.sub_x, Vec2.sub_y, Vec2.mul_x, Vec2.mul_y]
    ring
  have hless : (p - n * depth - q).dot (p - n * depth - q) < (p - q).dot (p - q) := by
    rw [hexpand, hn]
    nlinarith
  exact Real.sqrt_lt_sqrt (Vec2.dot_self_nonneg _) hless

/-! ## The worst violation -/

/-- Edges that are all long enough to count. -/
def Long (poly : List (Vec2 ℝ)) : Prop := ∀ edge ∈ edges poly, 1e-12 ≤ edge.2.norm

theorem Long.norm_pos (h : Long boundary) {edge : Vec2 ℝ × Vec2 ℝ} (hedge : edge ∈ edges boundary) :
    0 < edge.2.norm :=
  lt_of_lt_of_le (by norm_num) (h edge hedge)

theorem worstViolation_eq (hlong : Long boundary) (p : Vec2 ℝ) :
    worstViolation boundary p =
      (Scalar.lastMaxBy Prod.fst
        ((edges boundary).map fun edge => (reach p edge, edgeNormal edge.2))).filter
          fun violation => 0 < violation.1 := by
  have hviolations : (edges boundary).filterMap (fun edge => violation p edge.1 edge.2) =
      (edges boundary).map fun edge => (reach p edge, edgeNormal edge.2) := by
    rw [← List.filterMap_eq_map]
    exact List.filterMap_congr fun edge hedge => if_neg (hlong edge hedge).not_gt
  exact congrArg (fun violations => (Scalar.lastMaxBy Prod.fst violations).filter
    fun violation => 0 < violation.1) hviolations

theorem worstViolation_eq_some (hlong : Long boundary) {worst : ℝ × Vec2 ℝ}
    (h : worstViolation boundary p = some worst) :
    0 < worst.1 ∧ ∃ edge ∈ edges boundary, reach p edge = worst.1 ∧ edgeNormal edge.2 = worst.2 := by
  rw [worstViolation_eq hlong, Option.filter_eq_some_iff, decide_eq_true_eq] at h
  obtain ⟨edge, hedge, heq⟩ := List.mem_map.mp (Scalar.lastMaxBy_greatest h.1).1
  exact ⟨h.2, edge, hedge, congrArg Prod.fst heq, congrArg Prod.snd heq⟩

/-- There is no violation if the place is beyond no edge. -/
theorem worstViolation_eq_none_iff (hlong : Long boundary) :
    worstViolation boundary p = none ↔ ∀ edge ∈ edges boundary, reach p edge ≤ 0 := by
  constructor
  · intro h edge hedge
    rw [worstViolation_eq hlong] at h
    have hmem : (reach p edge, edgeNormal edge.2) ∈
        (edges boundary).map fun edge => (reach p edge, edgeNormal edge.2) :=
      List.mem_map_of_mem hedge
    cases hworst : Scalar.lastMaxBy Prod.fst
        ((edges boundary).map fun edge => (reach p edge, edgeNormal edge.2)) with
    | none => exact absurd (Scalar.eq_nil_of_lastMaxBy_eq_none hworst) (List.ne_nil_of_mem hmem)
    | some worst =>
      have hle := (Scalar.lastMaxBy_greatest hworst).2 _ hmem
      rw [hworst, Option.filter_eq_none_iff] at h
      exact hle.trans (not_lt.mp (by simpa using h _ rfl))
  · intro h
    refine Option.eq_none_iff_forall_ne_some.mpr fun worst hworst => ?_
    obtain ⟨hpos, edge, hedge, hreach, -⟩ := worstViolation_eq_some hlong hworst
    exact hpos.not_ge (hreach ▸ h edge hedge)

/-! ## Back into the polygon -/

/-- The region is the intersection of the inner sides of the edges. -/
theorem GoesRound.worstViolation_eq_none_iff (h : GoesRound 1 boundary) (hlong : Long boundary) :
    worstViolation boundary p = none ↔ point p ∈ region boundary := by
  rw [Polygon.worstViolation_eq_none_iff hlong, h.mem_region_iff]
  refine forall₂_congr fun edge hedge => ?_
  rw [one_mul, reach_nonpos_iff (hlong.norm_pos hedge)]

/-- The push leads back to the line of an edge, and the polygon is behind the line. -/
theorem GoesRound.worstViolation_eq_some (h : GoesRound 1 boundary) (hlong : Long boundary)
    {worst : ℝ × Vec2 ℝ} (hworst : worstViolation boundary p = some worst) :
    0 < worst.1 ∧ worst.2.dot worst.2 = 1 ∧
      ∀ q, point q ∈ region boundary → worst.1 ≤ (p - q).dot worst.2 := by
  obtain ⟨hpos, edge, hedge, hdepth, hnormal⟩ := Polygon.worstViolation_eq_some hlong hworst
  have hlength := hlong.norm_pos hedge
  refine ⟨hpos, hnormal ▸ edgeNormal_dot_self hlength, fun q hq => ?_⟩
  have hbehind : reach q edge ≤ 0 :=
    (reach_nonpos_iff hlength).mpr (one_mul (side _ _) ▸ h.mem_region_iff.mp hq edge hedge)
  have hapart : (p - q).dot (edgeNormal edge.2) = reach p edge - reach q edge := by
    simp only [reach, Vec2.dot, Vec2.sub_x, Vec2.sub_y]
    ring
  rw [← hnormal, hapart, hdepth]
  linarith

/-- Turned over if it has to be, the list of vertices is counter-clockwise. -/
theorem OneSided.goesRound_turned {plan : List (Vec2 ℝ)} (h : OneSided plan) (hlong : Long plan)
    (harea : doubleArea plan ≠ 0) :
    let turned := if doubleArea plan < 0 then plan.reverse else plan
    GoesRound 1 turned ∧ Long turned ∧ region turned = region plan := by
  have hpos : ∀ edge ∈ edges plan, 0 < edge.2.dot edge.2 := fun edge hedge => by
    rw [← Vec2.norm_mul_self]
    exact mul_self_pos.mpr (hlong.norm_pos hedge).ne'
  obtain ⟨σ, hround⟩ := h.exists_goesRound harea hpos
  have hσ := mul_self_eq_one_iff.mp hround.sign
  have hsign := hround.mul_doubleArea_pos
  dsimp only
  split
  case isTrue hneg =>
    have hσ : σ = -1 := hσ.resolve_left fun hone => by
      rw [hone, one_mul] at hsign
      exact hsign.not_gt hneg
    refine ⟨?_, fun edge hedge => ?_, region_reverse plan⟩
    · simpa [hσ] using hround.reverse
    · obtain ⟨c, hc, rfl⟩ := mem_edges_reverse.mp hedge
      rw [Vec2.norm, Vec2.dot_self_sub_comm, ← Vec2.norm]
      exact hlong _ (mem_edges.mpr ⟨c, hc, rfl⟩)
  case isFalse hneg =>
    have hσ : σ = 1 := hσ.resolve_right fun hminus => by
      rw [hminus, neg_one_mul] at hsign
      exact hneg (neg_pos.mp hsign)
    exact ⟨hσ ▸ hround, hlong, rfl⟩

theorem inward_ne_zero {depth : ℝ} {n : Vec2 ℝ} (hdepth : 0 < depth) (hn : n.dot n = 1) :
    inward depth n ≠ 0 := by
  intro hzero
  have hx : n.x = 0 := by simpa [inward, hdepth.ne'] using congrArg Vec3.x hzero
  have hy : n.y = 0 := by simpa [inward, hdepth.ne'] using congrArg Vec3.y hzero
  rw [Vec2.dot, hx, hy, mul_zero, add_zero] at hn
  exact zero_ne_one hn

theorem ofVec3_add_inward (p : Vec3 ℝ) (depth : ℝ) (n : Vec2 ℝ) :
    Vec2.ofVec3 (p + inward depth n) = Vec2.ofVec3 p - n * depth := by
  ext <;> simp [Vec2.ofVec3, inward, sub_eq_add_neg]

/-- The pushes on a node, of which there is one at most. -/
noncomputable def pushes (boundary : List (Vec2 ℝ)) (p : Vec3 ℝ) : List (Vec3 ℝ) :=
  (worstViolation boundary (Vec2.ofVec3 p)).toList.map fun (depth, normal) => inward depth normal

/-- A node in the region is left alone. -/
theorem GoesRound.pushes_eq_nil (h : GoesRound 1 boundary) (hlong : Long boundary) {p : Vec3 ℝ}
    (hp : point (Vec2.ofVec3 p) ∈ region boundary) : pushes boundary p = [] := by
  rw [pushes, (h.worstViolation_eq_none_iff hlong).mpr hp]
  rfl

theorem GoesRound.exists_pushes_eq (h : GoesRound 1 boundary) (hlong : Long boundary) {p : Vec3 ℝ}
    (hp : point (Vec2.ofVec3 p) ∉ region boundary) :
    ∃ m, pushes boundary p = [m] ∧ m ≠ 0 ∧ (p + m).z = p.z ∧
      ∀ q, point q ∈ region boundary →
        (Vec2.ofVec3 (p + m) - q).norm < (Vec2.ofVec3 p - q).norm := by
  obtain ⟨worst, hworst⟩ :=
    Option.ne_none_iff_exists'.mp (mt (h.worstViolation_eq_none_iff hlong).mp hp)
  obtain ⟨hpos, hunit, hbehind⟩ := h.worstViolation_eq_some hlong hworst
  refine ⟨inward worst.1 worst.2, ?_, inward_ne_zero hpos hunit, add_zero p.z, fun q hq => ?_⟩
  · rw [pushes, hworst]
    rfl
  · rw [ofVec3_add_inward]
    exact norm_pushed_sub_lt hunit hpos (hbehind q hq)

end Polygon

namespace Goal

/-- On any nodes, whatever it responded before, a goal that keeps nodes in a convex polygon leaves
alone the nodes over the polygon. It pushes every other one, at its height and nearer to every place of
the polygon, and it reports how many it pushes. -/
theorem keeps_in_polygon {points boundary : List (Vec3 ℝ)} {weight : ℝ} {g : Goal ℝ}
    (hmade : convexPolygonContainment points boundary weight = .ok g)
    (hconvex : Polygon.OneSided (boundary.map Vec2.ofVec3))
    (hlong : Polygon.Long (boundary.map Vec2.ofVec3)) (pool : Pool ℝ)
    {nodes : List Nat} (hnodes : nodes.length = g.nodeCount) {moves : List (Vec3 ℝ)}
    (hmoves : moves.length = g.nodeCount) {weights : List ℝ}
    (hweights : weights.length = g.nodeCount) :
    let after := ({ g with nodes, moves, weights } : Goal ℝ).compute pool
    let before := pool.positions nodes
    let polygon := Polygon.region (boundary.map Vec2.ofVec3)
    (∀ (i : Nat) (p : Vec3 ℝ), before[i]? = some p →
      ∃ m w, after.moves[i]? = some m ∧ after.weights[i]? = some w ∧ (p + m).z = p.z ∧
        (Polygon.point (Vec2.ofVec3 p) ∈ polygon → m = 0 ∧ w = 0) ∧
        (Polygon.point (Vec2.ofVec3 p) ∉ polygon → m ≠ 0 ∧ w = weight ∧
          ∀ q, Polygon.point q ∈ polygon →
            (Vec2.ofVec3 (p + m) - q).norm < (Vec2.ofVec3 p - q).norm)) ∧
    ({ g with nodes, moves, weights } : Goal ℝ).readings pool =
      [.scalar (after.moves.countP (· ≠ 0) : ℝ)] := by
  obtain ⟨-, -, -, harea, hg⟩ := convexPolygonContainment_eq_ok_iff.mp hmade
  intro after before polygon
  have harea : Polygon.doubleArea (boundary.map Vec2.ofVec3) ≠ 0 := fun hzero => by
    rw [hzero] at harea
    norm_num at harea
  obtain ⟨hround, hlong, hregion⟩ := hconvex.goesRound_turned hlong harea
  set turned := if Polygon.doubleArea (boundary.map Vec2.ofVec3) < 0
    then (boundary.map Vec2.ofVec3).reverse else boundary.map Vec2.ofVec3
  have haim : g.aim = .convexPolygonContainment turned := by
    rw [← hg]
    rfl
  have hweight : g.weight = weight := by
    rw [← hg]
    rfl
  have hbounded : g.aim.Bounded := by
    rw [haim]
    exact .of_shapeless rfl
  have hsound := ((Made.convexPolygonContainment hmade).sound hbounded).placed nodes hmoves hweights
  have hrespond : g.aim.respond g.nodeCount before =
      (before.map (Polygon.pushes turned)).map Response.averaged := by
    rw [haim, List.map_map]
    rfl
  have hpolygon : polygon = Polygon.region turned := hregion.symm
  refine ⟨fun i p hp => ?_, ?_⟩
  · obtain ⟨hmove, hgranted⟩ := hsound.getElem?_compute_averaged hnodes hrespond
      (List.getElem?_map.trans (congrArg _ hp))
    refine ⟨_, _, hmove, hgranted, ?_⟩
    rw [hpolygon]
    by_cases hin : Polygon.point (Vec2.ofVec3 p) ∈ Polygon.region turned
    · rw [hround.pushes_eq_nil hlong hin]
      exact ⟨add_zero p.z, fun _ => ⟨rfl, rfl⟩, absurd hin⟩
    · obtain ⟨m, hpushes, hne, hheight, hnearer⟩ := hround.exists_pushes_eq hlong hin
      rw [hpushes, Vec3.centroid_singleton]
      exact ⟨hheight, fun h => absurd h hin, fun _ => ⟨hne, hweight, hnearer⟩⟩
  · have hmoved : ∀ p : Vec3 ℝ, (Polygon.worstViolation turned (Vec2.ofVec3 p)).isSome ↔
        Vec3.centroid (Polygon.pushes turned p) ≠ 0 := fun p => by
      by_cases hin : Polygon.point (Vec2.ofVec3 p) ∈ Polygon.region turned
      · rw [hround.pushes_eq_nil hlong hin, (hround.worstViolation_eq_none_iff hlong).mpr hin]
        exact ⟨fun h => absurd h Bool.false_ne_true, fun h => absurd rfl h⟩
      · obtain ⟨m, hpushes, hne, -⟩ := hround.exists_pushes_eq hlong hin
        rw [hpushes, Vec3.centroid_singleton, Option.isSome_iff_ne_none]
        exact iff_of_true (mt (hround.worstViolation_eq_none_iff hlong).mp hin) hne
    have hcount : after.moves.countP (· ≠ 0) = Polygon.outsideCount turned before := by
      simp only [after, (hsound.compute_averaged hnodes hrespond).1, List.countP_map]
      exact List.countP_congr fun p _ => by simpa using (hmoved p).symm
    change g.aim.readings g.nodeCount before = _
    rw [haim, hcount]
    rfl

/-- A triangle that is listed clockwise, with a node in one of its corners and another one beyond its
longest edge. -/
theorem keeps_in_polygon_clockwise :
    let boundary : List (Vec3 ℝ) := [⟨0, 0, 0⟩, ⟨0, 1, 0⟩, ⟨1, 0, 0⟩]
    let plan := boundary.map Vec2.ofVec3
    let far : Vec3 ℝ := ⟨2, 2, 5⟩
    let g : Goal ℝ := ofAim (.convexPolygonContainment plan.reverse) [0, far] 1
    let pool : Pool ℝ := #[.atRest 0, .atRest far]
    let after := ({ g with nodes := [0, 1] } : Goal ℝ).compute pool
    (convexPolygonContainment [0, far] boundary 1 = .ok g ∧ Polygon.OneSided plan ∧
        Polygon.Long plan) ∧
      after.moves[0]? = some 0 ∧
      ∃ m, after.moves[1]? = some m ∧ m ≠ 0 ∧ (far + m).z = 5 ∧
        ∀ q, Polygon.point q ∈ Polygon.region plan →
          (Vec2.ofVec3 (far + m) - q).norm < (Vec2.ofVec3 far - q).norm := by
  intro boundary plan far g pool after
  have harea : Polygon.doubleArea plan = -1 := by
    simp [Polygon.doubleArea, plan, boundary, Vec2.ofVec3]
  have hedges : Polygon.edges plan =
      [(⟨0, 0⟩, ⟨0, 1⟩), (⟨0, 1⟩, ⟨1, -1⟩), (⟨1, 0⟩, ⟨-1, 0⟩)] := by
    simp [Polygon.edges, plan, boundary, Vec2.ofVec3, Vec2.ext_iff]
  have hmade : convexPolygonContainment [0, far] boundary 1 = .ok g := by
    refine convexPolygonContainment_eq_ok_iff.mpr ⟨one_le_two, Nat.le_refl 3,
      usable_real_iff.mpr zero_le_one, ?_, ?_⟩
    · change ¬Scalar.abs (Polygon.doubleArea plan) < 1e-12
      rw [harea]
      norm_num
    · have hnegative : Polygon.doubleArea plan < 0 := harea ▸ neg_one_lt_zero
      exact congrArg (fun turned => ofAim (.convexPolygonContainment turned) [0, far] 1)
        (if_pos hnegative)
  have hconvex : Polygon.OneSided plan := by
    rw [Polygon.OneSided, hedges]
    right
    simp [plan, boundary, Polygon.side, Polygon.point, Vec2.ofVec3]
  have hlong : Polygon.Long plan := by
    have hlength : ∀ e : Vec2 ℝ, 1 ≤ e.dot e → 1e-12 ≤ e.norm := fun e he =>
      le_trans (by norm_num) (Real.one_le_sqrt.mpr he)
    rw [Polygon.Long, hedges]
    simp only [List.forall_mem_cons]
    refine ⟨hlength _ ?_, hlength _ ?_, hlength _ ?_, by simp⟩ <;> norm_num [Vec2.dot]
  have hcorner : Polygon.point (Vec2.ofVec3 (0 : Vec3 ℝ)) ∈ Polygon.region plan :=
    Polygon.point_mem_region (List.mem_cons_self ..)
  have hbeyond : Polygon.point (Vec2.ofVec3 far) ∉ Polygon.region plan := fun hmem => by
    have hregion : Polygon.region plan ⊆ {x | Polygon.coord ⟨1, 0⟩ x ≤ 1} := by
      refine convexHull_min ?_ (convex_halfSpace_le (Polygon.isLinearMap_coord _) _)
      rintro _ ⟨p, hp, rfl⟩
      have hx : ∀ p ∈ plan, p.x ≤ 1 := by simp [plan, boundary, Vec2.ofVec3]
      simpa [Polygon.coord, Polygon.point] using hx p hp
    have hle := hregion hmem
    norm_num [Polygon.coord, Polygon.point, Vec2.ofVec3, far] at hle
  have hbuilt : g.Built := .made (.convexPolygonContainment hmade) (.of_shapeless rfl)
  obtain ⟨hslots, -⟩ := keeps_in_polygon hmade hconvex hlong pool
    (show [0, 1].length = g.nodeCount from rfl) hbuilt.sound.moves_length hbuilt.sound.weights_length
  obtain ⟨m, w, hm, -, -, hinside, -⟩ := hslots 0 0 rfl
  obtain ⟨m', w', hm', -, hheight, -, houtside⟩ := hslots 1 far rfl
  obtain ⟨hne, -, hnearer⟩ := houtside hbeyond
  exact ⟨⟨hmade, hconvex, hlong⟩, (hinside hcorner).1 ▸ hm, m', hm', hne, hheight, hnearer⟩

end Goal
end Relaxation
