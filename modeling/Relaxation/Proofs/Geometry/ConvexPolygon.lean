import Mathlib.Analysis.Convex.Topology
import Mathlib.Analysis.LocallyConvex.Separation
import Mathlib.Data.List.Rotate
import Relaxation.Goal.Polygon
import Relaxation.Proofs.Geometry.Vec2

/-!
# Convex polygons as regions of the plane

A polygon is given by its vertices. The region that it covers is their convex hull, and when the
vertices go round a convex polygon, one way or the other, the interior of the region is where all edges
are strictly on one side (`Polygon.GoesRound.interior_region`). The region itself is where no edge is on
the other side (`Polygon.GoesRound.mem_region_iff`), whichever way the vertices are listed.
-/

namespace Relaxation.Polygon

variable {poly : List (Vec2 ℝ)}

/-- The place of a vertex. -/
def point (p : Vec2 ℝ) : ℝ × ℝ := (p.x, p.y)

/-- The region that a polygon covers. -/
def region (poly : List (Vec2 ℝ)) : Set (ℝ × ℝ) := convexHull ℝ (point '' {p | p ∈ poly})

theorem convex_region (poly : List (Vec2 ℝ)) : Convex ℝ (region poly) := convex_convexHull ℝ _

theorem isClosed_region (poly : List (Vec2 ℝ)) : IsClosed (region poly) :=
  (poly.finite_toSet.image point).isClosed_convexHull ℝ

theorem point_mem_region {p : Vec2 ℝ} (h : p ∈ poly) : point p ∈ region poly :=
  subset_convexHull ℝ _ ⟨p, h, rfl⟩

/-- How far a place is to the left of an edge, times the length of the edge. -/
def side (edge : Vec2 ℝ × Vec2 ℝ) (x : ℝ × ℝ) : ℝ :=
  edge.2.x * (x.2 - edge.1.y) - edge.2.y * (x.1 - edge.1.x)

/-- A polygon that is convex, its vertices listed either way round, with an area and without edges so
short that they would not count. -/
structure IsConvex (poly : List (Vec2 ℝ)) : Prop where
  three_le_length : 3 ≤ poly.length
  doubleArea_ne_zero : doubleArea poly ≠ 0
  long : ∀ edge ∈ edges poly, 1e-12 < edge.2.norm
  oneSided : (∀ edge ∈ edges poly, ∀ q ∈ poly, 0 ≤ side edge (point q)) ∨
    ∀ edge ∈ edges poly, ∀ q ∈ poly, side edge (point q) ≤ 0

/-! ## Coordinates -/

/-- The coordinate of a place along an axis. -/
def coord (axis : Vec2 ℝ) (x : ℝ × ℝ) : ℝ := x.1 * axis.x + x.2 * axis.y

@[simp] theorem coord_point (axis p : Vec2 ℝ) : coord axis (point p) = p.dot axis := rfl

theorem isLinearMap_coord (axis : Vec2 ℝ) : IsLinearMap ℝ (coord axis) where
  map_add x y := by simp only [coord, Prod.fst_add, Prod.snd_add]; ring
  map_smul c x := by simp only [coord, Prod.smul_fst, Prod.smul_snd, smul_eq_mul]; ring

/-- The axis that points to the left of a vector. -/
def leftward (e : Vec2 ℝ) : Vec2 ℝ := ⟨-e.y, e.x⟩

theorem side_eq_coord (edge : Vec2 ℝ × Vec2 ℝ) (x : ℝ × ℝ) :
    side edge x = coord (leftward edge.2) x - edge.1.dot (leftward edge.2) := by
  simp only [side, coord, leftward, Vec2.dot]
  ring

theorem mul_side_eq_coord (σ : ℝ) (edge : Vec2 ℝ × Vec2 ℝ) (x : ℝ × ℝ) :
    σ * side edge x = coord (leftward edge.2 * σ) x - edge.1.dot (leftward edge.2 * σ) := by
  simp only [side, coord, leftward, Vec2.dot, Vec2.mul_x, Vec2.mul_y]
  ring

/-- The places inside of an edge. -/
def halfPlane (σ : ℝ) (edge : Vec2 ℝ × Vec2 ℝ) : Set (ℝ × ℝ) := {x | 0 < σ * side edge x}

theorem isOpen_halfPlane (σ : ℝ) (edge : Vec2 ℝ × Vec2 ℝ) : IsOpen (halfPlane σ edge) := by
  refine isOpen_lt continuous_const (continuous_const.mul ?_)
  unfold side
  fun_prop

theorem convex_halfPlane (σ : ℝ) (edge : Vec2 ℝ × Vec2 ℝ) : Convex ℝ (halfPlane σ edge) := by
  simp only [halfPlane, mul_side_eq_coord, sub_pos]
  exact convex_halfSpace_gt (isLinearMap_coord _) _

/-- A mean of vertices is as far to the left of an edge as they are on the mean. -/
theorem side_mean (edge : Vec2 ℝ × Vec2 ℝ) (hne : (poly.length : ℝ) ≠ 0) :
    side edge ((poly.length : ℝ)⁻¹ • (poly.map point).sum) =
      (poly.length : ℝ)⁻¹ * (poly.map fun p => side edge (point p)).sum := by
  have hsum : ∀ ps : List (Vec2 ℝ), (ps.map fun p => side edge (point p)).sum =
      coord (leftward edge.2) (ps.map point).sum - ps.length * edge.1.dot (leftward edge.2) := by
    intro ps
    induction ps with
    | nil => simp [coord]
    | cons p ps ih =>
      rw [List.map_cons, List.sum_cons, ih, List.map_cons, List.sum_cons,
        (isLinearMap_coord _).map_add, side_eq_coord, List.length_cons]
      push_cast
      ring
  rw [side_eq_coord, hsum, (isLinearMap_coord _).map_smul, smul_eq_mul]
  field_simp

/-- No place in the interior of a region is extreme in any direction. -/
theorem exists_dot_lt {axis : Vec2 ℝ} (haxis : 0 < axis.dot axis) {x : ℝ × ℝ}
    (h : x ∈ interior (region poly)) : ∃ p ∈ poly, p.dot axis < coord axis x := by
  by_contra! hle
  have hregion : region poly ⊆ {y | coord axis x ≤ coord axis y} := by
    refine convexHull_min ?_ (convex_halfSpace_ge (isLinearMap_coord axis) _)
    rintro _ ⟨p, hp, rfl⟩
    exact hle p hp
  -- From an interior place there is a way back along the axis.
  have hback : ContinuousAt (fun ε : ℝ => x - ε • point axis) 0 := by fun_prop
  have hnear : ∀ᶠ ε in nhdsWithin (0 : ℝ) (Set.Ioi 0), x - ε • point axis ∈ region poly := by
    refine nhdsWithin_le_nhds (hback.eventually_mem ?_)
    simpa using mem_interior_iff_mem_nhds.mp h
  obtain ⟨ε, hmem, hε⟩ := (hnear.and self_mem_nhdsWithin).exists
  have hfar : coord axis (x - ε • point axis) = coord axis x - ε * axis.dot axis := by
    rw [(isLinearMap_coord axis).map_sub, (isLinearMap_coord axis).map_smul]
    rfl
  have hmove := hregion hmem
  rw [Set.mem_ofPred_eq, hfar] at hmove
  have hpos : 0 < ε * axis.dot axis := mul_pos hε haxis
  linarith

/-! ## Going round -/

/-- Every vertex with the next one, and the last with the first. -/
def consecutive (poly : List (Vec2 ℝ)) : List (Vec2 ℝ × Vec2 ℝ) :=
  poly.zip (poly.tail ++ poly.take 1)

theorem zip_zipWith_sub (ps qs : List (Vec2 ℝ)) :
    ps.zip (qs.zipWith (· - ·) ps) = (ps.zip qs).map fun (p, q) => (p, q - p) := by
  induction ps generalizing qs with
  | nil => rfl
  | cons p ps ih =>
    cases qs with
    | nil => rfl
    | cons q qs => simp only [List.zipWith_cons_cons, List.zip_cons_cons, List.map_cons, ih]

theorem edges_eq (poly : List (Vec2 ℝ)) :
    edges poly = (consecutive poly).map fun (p, q) => (p, q - p) :=
  zip_zipWith_sub poly _

theorem successors_perm (poly : List (Vec2 ℝ)) : (poly.tail ++ poly.take 1).Perm poly := by
  cases poly with
  | nil => rfl
  | cons p ps => exact List.perm_append_singleton p ps

/-- What is gained going round is lost again. -/
theorem sum_consecutive_sub (f : Vec2 ℝ → ℝ) (poly : List (Vec2 ℝ)) :
    ((consecutive poly).map fun (p, q) => f q - f p).sum = 0 := by
  have hperm := successors_perm poly
  have hfst : (consecutive poly).map Prod.fst = poly := List.map_fst_zip hperm.length_eq.ge
  have hsnd : (consecutive poly).map Prod.snd = poly.tail ++ poly.take 1 :=
    List.map_snd_zip hperm.length_eq.le
  have hsums : ((consecutive poly).map (f ∘ Prod.snd)).sum =
      ((consecutive poly).map (f ∘ Prod.fst)).sum := by
    rw [← List.map_map, ← List.map_map, hfst, hsnd]
    exact (hperm.map f).sum_eq
  have hadd : ((consecutive poly).map fun c => (f c.2 - f c.1) + f c.1).sum =
      ((consecutive poly).map fun c => f c.2 - f c.1).sum +
        ((consecutive poly).map (f ∘ Prod.fst)).sum := List.sum_map_add
  simp only [sub_add_cancel] at hadd
  exact right_eq_add.mp (hsums.symm.trans hadd)

theorem doubleArea_eq (poly : List (Vec2 ℝ)) :
    doubleArea poly = ((consecutive poly).map fun (p, q) => p.x * q.y - q.x * p.y).sum := by
  rw [doubleArea, Scalar.sum_real]
  rfl

/-- The area is the sum of the triangles between a place and the edges. -/
theorem doubleArea_eq_sum_side (poly : List (Vec2 ℝ)) (x : ℝ × ℝ) :
    doubleArea poly = ((edges poly).map (side · x)).sum := by
  have hside : ∀ c ∈ consecutive poly, side (c.1, c.2 - c.1) x = (c.1.x * c.2.y - c.2.x * c.1.y) +
      ((x.1 * -c.2.y + x.2 * c.2.x) - (x.1 * -c.1.y + x.2 * c.1.x)) := by
    intro c _
    simp only [side, Vec2.sub_x, Vec2.sub_y]
    ring
  have hround := sum_consecutive_sub (fun p => x.1 * -p.y + x.2 * p.x) poly
  calc doubleArea poly
      = ((consecutive poly).map fun (p, q) => p.x * q.y - q.x * p.y).sum := doubleArea_eq poly
    _ = ((consecutive poly).map fun c => side (c.1, c.2 - c.1) x).sum := by
        rw [List.map_congr_left hside, List.sum_map_add]
        exact (add_eq_left.mpr hround).symm
    _ = ((edges poly).map (side · x)).sum := by
        rw [edges_eq, List.map_map]
        rfl

theorem mem_of_mem_consecutive {c : Vec2 ℝ × Vec2 ℝ} (h : c ∈ consecutive poly) :
    c.1 ∈ poly ∧ c.2 ∈ poly := by
  obtain ⟨hfst, hsnd⟩ := List.of_mem_zip h
  exact ⟨hfst, (successors_perm poly).mem_iff.mp hsnd⟩

theorem mem_edges {edge : Vec2 ℝ × Vec2 ℝ} :
    edge ∈ edges poly ↔ ∃ c ∈ consecutive poly, (c.1, c.2 - c.1) = edge := by
  rw [edges_eq, List.mem_map]

/-! ## The other way round -/

theorem consecutive_eq (poly : List (Vec2 ℝ)) : consecutive poly = poly.zip (poly.rotate 1) := by
  cases poly with
  | nil => rfl
  | cons p ps => rw [List.rotate_cons_succ, List.rotate_zero]; rfl

/-- Of the vertices listed the other way round the pairs are turned over. -/
theorem consecutive_reverse_perm (poly : List (Vec2 ℝ)) :
    (consecutive poly.reverse).Perm ((consecutive poly).map Prod.swap) := by
  rcases eq_or_ne poly [] with rfl | hne
  · rfl
  have hlen : 1 % poly.length ≤ poly.length :=
    (Nat.mod_lt _ (List.length_pos_iff.mpr hne)).le
  have hback : consecutive poly.reverse =
      (poly.zip (poly.rotate (poly.length - 1 % poly.length))).reverse := by
    rw [consecutive_eq, List.rotate_reverse, List.zip_eq_zipWith, List.zip_eq_zipWith,
      List.reverse_zipWith (List.length_rotate ..).symm]
  have hrotate : (poly.zip (poly.rotate (poly.length - 1 % poly.length))).rotate (1 % poly.length) =
      (consecutive poly).map Prod.swap := by
    rw [List.zip_eq_zipWith, List.zipWith_rotate_distrib _ _ _ _ (List.length_rotate ..).symm,
      List.rotate_rotate, Nat.sub_add_cancel hlen, List.rotate_length, List.rotate_mod,
      consecutive_eq, List.zip_swap, List.zip_eq_zipWith]
  rw [hback, ← hrotate]
  exact (List.reverse_perm _).trans (List.rotate_perm _ _).symm

theorem doubleArea_reverse (poly : List (Vec2 ℝ)) : doubleArea poly.reverse = -doubleArea poly := by
  have hflip : ∀ c ∈ consecutive poly, c.2.x * c.1.y - c.1.x * c.2.y =
      -1 * (c.1.x * c.2.y - c.2.x * c.1.y) := fun c _ => by ring
  rw [doubleArea_eq, doubleArea_eq, ((consecutive_reverse_perm poly).map _).sum_eq, List.map_map,
    neg_eq_neg_one_mul, ← List.sum_map_mul_left]
  exact congrArg List.sum (List.map_congr_left hflip)

/-- The edges of the vertices listed the other way round lead back. -/
theorem mem_edges_reverse {edge : Vec2 ℝ × Vec2 ℝ} :
    edge ∈ edges poly.reverse ↔ ∃ c ∈ consecutive poly, (c.2, c.1 - c.2) = edge := by
  simp only [mem_edges, (consecutive_reverse_perm poly).mem_iff, List.mem_map,
    exists_exists_and_eq_and, Prod.fst_swap, Prod.snd_swap]

theorem side_swap (p q : Vec2 ℝ) (x : ℝ × ℝ) : side (q, p - q) x = -side (p, q - p) x := by
  simp only [side, Vec2.sub_x, Vec2.sub_y]
  ring

theorem region_reverse (poly : List (Vec2 ℝ)) : region poly.reverse = region poly := by
  simp only [region, List.mem_reverse]

/-- The vertices go round a convex polygon, counter-clockwise if the sign is positive: none of them is
on the outer side of an edge. -/
structure GoesRound (σ : ℝ) (poly : List (Vec2 ℝ)) : Prop where
  sign : σ * σ = 1
  doubleArea_ne_zero : doubleArea poly ≠ 0
  pos : ∀ edge ∈ edges poly, 0 < edge.2.dot edge.2
  nonneg : ∀ edge ∈ edges poly, ∀ q ∈ poly, 0 ≤ σ * side edge (point q)

/-- No vertex of the polygon is to the right of an edge, or none to the left. -/
def OneSided (poly : List (Vec2 ℝ)) : Prop :=
  (∀ edge ∈ edges poly, ∀ q ∈ poly, 0 ≤ side edge (point q)) ∨
    ∀ edge ∈ edges poly, ∀ q ∈ poly, side edge (point q) ≤ 0

theorem OneSided.exists_goesRound (h : OneSided poly) (harea : doubleArea poly ≠ 0)
    (hpos : ∀ edge ∈ edges poly, 0 < edge.2.dot edge.2) : ∃ σ, GoesRound σ poly := by
  rcases h with hleft | hright
  · exact ⟨1, one_mul 1, harea, hpos, fun edge hedge q hq => by
      rw [one_mul]
      exact hleft edge hedge q hq⟩
  · exact ⟨-1, by norm_num, harea, hpos, fun edge hedge q hq => by
      rw [neg_one_mul, neg_nonneg]
      exact hright edge hedge q hq⟩

theorem IsConvex.exists_goesRound (h : IsConvex poly) : ∃ σ, GoesRound σ poly := by
  have hpos : ∀ edge ∈ edges poly, 0 < edge.2.dot edge.2 := by
    intro edge hedge
    have hlong := h.long edge hedge
    rw [Scalar.ofScientific_real] at hlong
    have hnorm : 0 < edge.2.norm := lt_trans (by norm_num) hlong
    rw [← Vec2.norm_mul_self]
    exact mul_pos hnorm hnorm
  exact OneSided.exists_goesRound h.oneSided h.doubleArea_ne_zero hpos

namespace GoesRound

variable {σ : ℝ}

/-- A polygon with an area does not have all its edges in line with one place. -/
theorem exists_side_ne_zero (h : GoesRound σ poly) (x : ℝ × ℝ) :
    ∃ c ∈ consecutive poly, side (c.1, c.2 - c.1) x ≠ 0 := by
  by_contra! hzero
  refine h.doubleArea_ne_zero ((doubleArea_eq_sum_side poly x).trans (List.sum_eq_zero ?_))
  intro y hy
  obtain ⟨edge, hedge, rfl⟩ := List.mem_map.mp hy
  obtain ⟨c, hc, rfl⟩ := mem_edges.mp hedge
  exact hzero c hc

theorem ne_nil (h : GoesRound σ poly) : poly ≠ [] := by
  obtain ⟨c, hc, _⟩ := h.exists_side_ne_zero 0
  exact List.ne_nil_of_mem (mem_of_mem_consecutive hc).1

/-- The sign is that of the area. -/
theorem mul_doubleArea_pos (h : GoesRound σ poly) : 0 < σ * doubleArea poly := by
  obtain ⟨p, hp⟩ := List.exists_mem_of_ne_nil poly h.ne_nil
  have hnonneg : 0 ≤ σ * doubleArea poly := by
    rw [doubleArea_eq_sum_side poly (point p), ← List.sum_map_mul_left]
    exact List.sum_nonneg (List.forall_mem_map.mpr fun edge hedge => h.nonneg edge hedge p hp)
  exact lt_of_le_of_ne hnonneg
    (mul_ne_zero (left_ne_zero_of_mul_eq_one h.sign) h.doubleArea_ne_zero).symm

theorem reverse (h : GoesRound σ poly) : GoesRound (-σ) poly.reverse where
  sign := by rw [neg_mul_neg, h.sign]
  doubleArea_ne_zero := by
    rw [doubleArea_reverse]
    exact neg_ne_zero.mpr h.doubleArea_ne_zero
  pos edge hedge := by
    obtain ⟨c, hc, rfl⟩ := mem_edges_reverse.mp hedge
    rw [Vec2.dot_self_sub_comm]
    exact h.pos _ (mem_edges.mpr ⟨c, hc, rfl⟩)
  nonneg edge hedge q hq := by
    obtain ⟨c, hc, rfl⟩ := mem_edges_reverse.mp hedge
    rw [side_swap, neg_mul_neg]
    exact h.nonneg _ (mem_edges.mpr ⟨c, hc, rfl⟩) q (List.mem_reverse.mp hq)

/-! ## Inside of all edges -/

/-- Seen from a place that a line keeps apart from the polygon, the vertices cannot go round in one
sense only: what they gain in slope they must lose again. -/
theorem exists_side_neg (h : GoesRound σ poly) {u : Vec2 ℝ} {x : ℝ × ℝ}
    (hapart : ∀ p ∈ poly, coord u x < p.dot u) : ∃ edge ∈ edges poly, σ * side edge x < 0 := by
  by_contra! hinside
  let height (p : Vec2 ℝ) : ℝ := p.dot u - coord u x
  let drift (p : Vec2 ℝ) : ℝ := p.dot (leftward u) - coord (leftward u) x
  have hheight : ∀ p ∈ poly, 0 < height p := fun p hp => sub_pos.mpr (hapart p hp)
  have hturn : ∀ p q : Vec2 ℝ,
      drift q * height p - drift p * height q = u.dot u * side (p, q - p) x := by
    intro p q
    simp only [drift, height, side, coord, leftward, Vec2.dot, Vec2.sub_x, Vec2.sub_y]
    ring
  have hgain : ∀ c ∈ consecutive poly, σ * (drift c.2 / height c.2) - σ * (drift c.1 / height c.1) =
      u.dot u * (σ * side (c.1, c.2 - c.1) x) / (height c.1 * height c.2) := by
    intro c hc
    obtain ⟨hp, hq⟩ := mem_of_mem_consecutive hc
    have hp := (hheight _ hp).ne'
    have hq := (hheight _ hq).ne'
    have hturn := hturn c.1 c.2
    field_simp
    linear_combination σ * hturn
  have hnonneg : ∀ c ∈ consecutive poly,
      0 ≤ σ * (drift c.2 / height c.2) - σ * (drift c.1 / height c.1) := by
    intro c hc
    obtain ⟨hp, hq⟩ := mem_of_mem_consecutive hc
    have hedge := hinside _ (mem_edges.mpr ⟨c, hc, rfl⟩)
    rw [hgain c hc]
    exact div_nonneg (mul_nonneg u.dot_self_nonneg hedge)
      (mul_pos (hheight _ hp) (hheight _ hq)).le
  obtain ⟨c, hc, hne⟩ := h.exists_side_ne_zero x
  obtain ⟨hp, hq⟩ := mem_of_mem_consecutive hc
  have hzero := List.all_zero_of_le_zero_le_of_sum_eq_zero (List.forall_mem_map.mpr hnonneg)
    (sum_consecutive_sub (fun p => σ * (drift p / height p)) poly) (List.mem_map_of_mem hc)
  rw [hgain c hc, div_eq_zero_iff, mul_eq_zero, mul_eq_zero] at hzero
  have hσ : σ ≠ 0 := left_ne_zero_of_mul_eq_one h.sign
  have hu : u.dot u ≠ 0 := fun hu => by
    obtain ⟨hux, huy⟩ := mul_self_add_mul_self_eq_zero.mp hu
    have hlt := hapart c.1 hp
    simp only [coord, Vec2.dot, hux, huy, mul_zero, add_zero, lt_self_iff_false] at hlt
  have hheights : height c.1 * height c.2 ≠ 0 := (mul_pos (hheight _ hp) (hheight _ hq)).ne'
  simp [hσ, hu, hne, hheights] at hzero

theorem mem_region (h : GoesRound σ poly) {x : ℝ × ℝ}
    (hx : ∀ edge ∈ edges poly, 0 ≤ σ * side edge x) : x ∈ region poly := by
  by_contra hout
  obtain ⟨f, level, hbelow, habove⟩ :=
    geometric_hahn_banach_point_closed (convex_region poly) (isClosed_region poly) hout
  have hf : ∀ y : ℝ × ℝ, f y = coord ⟨f (1, 0), f (0, 1)⟩ y := by
    intro y
    have hy : y = y.1 • (1, 0) + y.2 • (0, 1) := by ext <;> simp
    conv_lhs => rw [hy, map_add, map_smul, map_smul]
    rfl
  have hapart : ∀ p ∈ poly, coord ⟨f (1, 0), f (0, 1)⟩ x < p.dot ⟨f (1, 0), f (0, 1)⟩ := by
    intro p hp
    have hp := habove (point p) (point_mem_region hp)
    rw [← coord_point, ← hf, ← hf]
    exact hbelow.trans hp
  obtain ⟨edge, hedge, hneg⟩ := h.exists_side_neg hapart
  exact hneg.not_ge (hx edge hedge)

/-- The region is where no edge has the place on its outer side. -/
theorem mem_region_iff (h : GoesRound σ poly) {x : ℝ × ℝ} :
    x ∈ region poly ↔ ∀ edge ∈ edges poly, 0 ≤ σ * side edge x := by
  refine ⟨fun hx edge hedge => ?_, h.mem_region⟩
  have hregion : region poly ⊆ {y | 0 ≤ σ * side edge y} := by
    refine convexHull_min ?_ ?_
    · rintro _ ⟨p, hp, rfl⟩
      exact h.nonneg edge hedge p hp
    · simp only [mul_side_eq_coord, sub_nonneg]
      exact convex_halfSpace_ge (isLinearMap_coord _) _
  exact hregion hx

theorem interior_region (h : GoesRound σ poly) :
    interior (region poly) = ⋂ edge ∈ edges poly, halfPlane σ edge := by
  apply Set.Subset.antisymm
  · refine Set.subset_iInter₂ fun edge hedge x hx => ?_
    have haxis : 0 < (leftward edge.2 * σ).dot (leftward edge.2 * σ) := by
      have hsq : (leftward edge.2 * σ).dot (leftward edge.2 * σ) = σ * σ * edge.2.dot edge.2 := by
        simp only [leftward, Vec2.dot, Vec2.mul_x, Vec2.mul_y]
        ring
      rw [hsq, h.sign, one_mul]
      exact h.pos edge hedge
    obtain ⟨q, hq, hlt⟩ := exists_dot_lt haxis hx
    have hinner := h.nonneg edge hedge q hq
    rw [mul_side_eq_coord, coord_point] at hinner
    rw [halfPlane, Set.mem_ofPred_eq, mul_side_eq_coord]
    linarith
  · refine interior_maximal (fun x hx => h.mem_region fun edge hedge => ?_) ?_
    · exact le_of_lt (Set.mem_iInter₂.mp hx edge hedge)
    · exact (edges poly).finite_toSet.isOpen_biInter fun edge _ => isOpen_halfPlane σ edge

theorem mem_interior_region_iff (h : GoesRound σ poly) {x : ℝ × ℝ} :
    x ∈ interior (region poly) ↔ ∀ edge ∈ edges poly, x ∈ halfPlane σ edge := by
  rw [h.interior_region, Set.mem_iInter₂]

/-- No edge has all vertices in line with it. -/
theorem exists_side_pos (h : GoesRound σ poly) {edge : Vec2 ℝ × Vec2 ℝ} (hedge : edge ∈ edges poly) :
    ∃ q ∈ poly, 0 < σ * side edge (point q) := by
  by_contra! hle
  have hσ : σ ≠ 0 := left_ne_zero_of_mul_eq_one h.sign
  have hflat : ∀ q ∈ poly, side edge (point q) = 0 := fun q hq =>
    (mul_eq_zero_iff_left hσ).mp (le_antisymm (hle q hq) (h.nonneg edge hedge q hq))
  obtain ⟨c, hc, hne⟩ := h.exists_side_ne_zero (point edge.1)
  obtain ⟨hp, hq⟩ := mem_of_mem_consecutive hc
  have hline : edge.2.dot edge.2 * side (c.1, c.2 - c.1) (point edge.1) =
      (c.1 - edge.1).dot edge.2 * side edge (point c.2) -
        (c.2 - edge.1).dot edge.2 * side edge (point c.1) := by
    simp only [side, point, Vec2.dot, Vec2.sub_x, Vec2.sub_y]
    ring
  rw [hflat _ hp, hflat _ hq, mul_zero, mul_zero, sub_zero, mul_eq_zero] at hline
  exact hline.elim (h.pos edge hedge).ne' hne

/-- The mean of the vertices is inside of all edges. -/
theorem interior_region_nonempty (h : GoesRound σ poly) : (interior (region poly)).Nonempty := by
  refine ⟨(poly.length : ℝ)⁻¹ • (poly.map point).sum, ?_⟩
  rw [h.mem_interior_region_iff]
  intro edge hedge
  obtain ⟨q, hq, hpos⟩ := h.exists_side_pos hedge
  have hne : (poly.length : ℝ) ≠ 0 := by
    exact_mod_cast (List.length_pos_of_mem hq).ne'
  rw [halfPlane, Set.mem_ofPred_eq, side_mean edge hne, ← mul_assoc, mul_comm σ, mul_assoc]
  have hnonneg : ∀ y ∈ poly.map fun p => σ * side edge (point p), 0 ≤ y :=
    List.forall_mem_map.mpr (h.nonneg edge hedge)
  have hsum : 0 < (poly.map fun p => σ * side edge (point p)).sum := by
    refine lt_of_le_of_ne (List.sum_nonneg hnonneg) fun hzero => hpos.ne' ?_
    exact List.all_zero_of_le_zero_le_of_sum_eq_zero hnonneg hzero.symm
      (List.mem_map_of_mem hq)
  rw [← List.sum_map_mul_left]
  exact mul_pos (inv_pos.mpr (lt_of_le_of_ne (Nat.cast_nonneg _) hne.symm)) hsum

end GoesRound
end Relaxation.Polygon
