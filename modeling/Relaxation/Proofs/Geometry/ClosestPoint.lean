import Mathlib.Analysis.Convex.Combination
import Relaxation.Geometry.ClosestPoint
import Relaxation.Proofs.Geometry.Vec3
import Relaxation.Proofs.Scalar.Partial

/-!
# Closest points on triangles

The regions of a triangle, degenerate ones included, are told apart by how far a point lies along
each edge and on which side of it. In each region the answer is the nearest point of the triangle
(`closestOnTriangle_lift`), except that an edge without length from the first corner to the second
is divided by when the point lies ahead of them (`closestOnTriangle_pinched`). With these corners apart
no quotient is without value (`closestOnTriangle_nearest`).
-/

namespace Relaxation

/-- The point of a set that no other one is nearer to `p` than. -/
structure IsNearest (p : Vec3 ℝ) (s : Set (Vec3 ℝ)) (q : Vec3 ℝ) : Prop where
  mem : q ∈ s
  le : ∀ x ∈ s, q.distSq p ≤ x.distSq p

theorem IsNearest.norm_le {p : Vec3 ℝ} {s : Set (Vec3 ℝ)} {q x : Vec3 ℝ} (h : IsNearest p s q)
    (hx : x ∈ s) : (q - p).norm ≤ (x - p).norm := (Vec3.norm_le_norm_iff _ _).mpr (h.le x hx)

/-- The points of the triangle `abc`, which may be degenerate. -/
def triangle (a b c : Vec3 ℝ) : Set (Vec3 ℝ) := convexHull ℝ {a, b, c}

namespace Triangle

variable {p x y z q : Vec3 ℝ}

theorem rotate (x y z : Vec3 ℝ) : triangle y z x = triangle x y z := by
  rw [triangle, triangle, Set.pair_comm z x, Set.insert_comm]

theorem swap (x y z : Vec3 ℝ) : triangle x z y = triangle x y z := by
  rw [triangle, triangle, Set.pair_comm]

theorem combination_mem {u v w : ℝ} (hu : 0 ≤ u) (hv : 0 ≤ v) (hw : 0 ≤ w) (h : u + v + w = 1) :
    u • x + v • y + w • z ∈ triangle x y z := by
  have hmem : ∀ i, ![x, y, z] i ∈ triangle x y z := by
    intro i
    apply subset_convexHull
    fin_cases i <;> simp
  have hsum : ∑ i, ![u, v, w] i = 1 := by rw [Fin.sum_univ_three]; exact h
  have hnonneg : ∀ i ∈ Finset.univ, 0 ≤ ![u, v, w] i := by
    intro i _
    fin_cases i
    exacts [hu, hv, hw]
  have hcombination := (convex_convexHull ℝ {x, y, z}).sum_mem hnonneg hsum fun i _ => hmem i
  rwa [Fin.sum_univ_three] at hcombination

/-- A point of a triangle is the nearest one to `p` if no corner lies beyond it in the direction of
`p`. -/
theorem isNearest_of_corners (hq : q ∈ triangle x y z) (hx : (p - q).dot (x - q) ≤ 0)
    (hy : (p - q).dot (y - q) ≤ 0) (hz : (p - q).dot (z - q) ≤ 0) :
    IsNearest p (triangle x y z) q := by
  have hconvex : Convex ℝ {r | (p - q).dot (r - q) ≤ 0} := by
    intro r hr s hs u v hu hv huv
    have hlinear : (p - q).dot (u • r + v • s - q) =
        u * (p - q).dot (r - q) + v * (p - q).dot (s - q) := by
      obtain rfl := eq_sub_of_add_eq' huv
      simp only [← Vec3.mul_real, Vec3.dot, Vec3.sub_x, Vec3.sub_y, Vec3.sub_z, Vec3.add_x,
        Vec3.add_y, Vec3.add_z, Vec3.mul_x, Vec3.mul_y, Vec3.mul_z]
      ring
    rw [Set.mem_ofPred_eq, hlinear]
    exact add_nonpos (mul_nonpos_of_nonneg_of_nonpos hu hr) (mul_nonpos_of_nonneg_of_nonpos hv hs)
  refine ⟨hq, fun r hr => ?_⟩
  have hcorners : {x, y, z} ⊆ {r | (p - q).dot (r - q) ≤ 0} := by
    rintro r (rfl | rfl | rfl)
    exacts [hx, hy, hz]
  have hr : (p - q).dot (r - q) ≤ 0 := convexHull_min hcorners hconvex hr
  have hsplit : r.distSq p = q.distSq p + (r - q).normSq - 2 * (p - q).dot (r - q) := by
    simp only [Vec3.distSq, Vec3.normSq, Vec3.dot, Vec3.sub_x, Vec3.sub_y, Vec3.sub_z]
    ring
  linarith [(r - q).normSq_nonneg]

/-! ## Regions -/

/-- How far `p` lies along the edge from `x` to `y`, times the length of the edge. -/
noncomputable def along (p x y : Vec3 ℝ) : ℝ := (y - x).dot (p - x)

/-- How far `p` lies on the side of `z` of the line through `x` and `y`. -/
noncomputable def side (p x y z : Vec3 ℝ) : ℝ :=
  (y - x).normSq * along p x z - along p x y * (y - x).dot (z - x)

/-- The corner `x` of a triangle `xyz` is the nearest point. -/
def AtCorner (p x y z : Vec3 ℝ) : Prop := along p x y ≤ 0 ∧ along p x z ≤ 0

/-- The nearest point of a triangle `xyz` lies on the edge `xy`. -/
def AtEdge (p x y z : Vec3 ℝ) : Prop :=
  side p x y z ≤ 0 ∧ 0 ≤ along p x y ∧ 0 ≤ along p y x

theorem along_self (p x : Vec3 ℝ) : along p x x = 0 := by
  rw [along, sub_self, Vec3.dot_comm, Vec3.dot_zero]

theorem along_add_along (p x y : Vec3 ℝ) : along p x y + along p y x = (y - x).normSq := by
  simp only [along, Vec3.normSq, Vec3.dot, Vec3.sub_x, Vec3.sub_y, Vec3.sub_z]
  ring

theorem dot_from_end (p x y : Vec3 ℝ) : (y - x).dot (p - y) = -along p y x := by
  simp only [along, Vec3.dot, Vec3.sub_x, Vec3.sub_y, Vec3.sub_z]
  ring

theorem dot_from_corner (p x y z : Vec3 ℝ) :
    (z - x).dot (p - y) = along p y z - along p y x := by
  simp only [along, Vec3.dot, Vec3.sub_x, Vec3.sub_y, Vec3.sub_z]
  ring

/-- The side of an edge from what lies along the edges at both of its ends. -/
theorem side_eq (p x y z : Vec3 ℝ) :
    side p x y z = along p x y * (along p y z - along p y x) + along p y x * along p x z := by
  simp only [side, along, Vec3.normSq, Vec3.dot, Vec3.sub_x, Vec3.sub_y, Vec3.sub_z]
  ring

theorem side_comm (p x y z : Vec3 ℝ) : side p y x z = side p x y z := by
  simp only [side, along, Vec3.normSq, Vec3.dot, Vec3.sub_x, Vec3.sub_y, Vec3.sub_z]
  ring

theorem AtEdge.symm (h : AtEdge p x y z) : AtEdge p y x z :=
  ⟨(side_comm p x y z).trans_le h.1, h.2.2, h.2.1⟩

theorem AtCorner.symm (h : AtCorner p x y z) : AtCorner p x z y := And.symm h

/-- A point behind a corner as seen along one edge, and outside of that edge, is outside of the other
edge, too, and not beyond its far end. -/
theorem behind_corner {e f g s t : ℝ} (he : 0 ≤ e) (hf : 0 ≤ f) (hg : g * g ≤ e * f) (hs : s < 0)
    (ht : 0 < t) (h : e * t ≤ s * g) : f * s - t * g ≤ 0 ∧ (f < t → s - g ≤ t - f) := by
  -- An edge without length has no angle with the other one.
  rcases he.eq_or_lt with rfl | he
  · have hg : g = 0 := by
      rw [zero_mul] at hg
      exact mul_self_eq_zero.mp (le_antisymm hg (mul_self_nonneg g))
    rw [hg, mul_zero, sub_zero, sub_zero]
    exact ⟨mul_nonpos_of_nonneg_of_nonpos hf hs.le, fun hft => by linarith⟩
  · have hg_neg : g < 0 := by
      by_contra hg_nonneg
      have hneg := mul_nonpos_of_nonpos_of_nonneg hs.le (not_lt.mp hg_nonneg)
      linarith [mul_pos he ht]
    constructor
    · have hscaled : e * (f * s - t * g) ≤ 0 := by
        have h₁ := mul_le_mul_of_nonpos_right h hg_neg.le
        have h₂ := mul_le_mul_of_nonpos_right hg hs.le
        linarith
      exact nonpos_of_mul_nonpos_right hscaled he
    · intro hft
      by_contra hbeyond
      have h₁ : s * g ≤ g * g := mul_le_mul_of_nonpos_right (by linarith) hg_neg.le
      have h₂ : e * f < e * t := mul_lt_mul_of_pos_left hft he
      linarith

/-- A point behind the corner `x` along the edge `xy` that is in none of the regions nearby lies on
the inner side of the edge. -/
theorem side_pos_of_behind (hbehind : along p x y < 0) (hx : ¬AtCorner p x y z)
    (hz : ¬AtCorner p z x y) (hxz : ¬AtEdge p x z y) : 0 < side p x y z := by
  by_contra hside
  have hahead : 0 < along p x z := by
    by_contra hle
    exact hx ⟨hbehind.le, not_lt.mp hle⟩
  obtain ⟨hside_xz, hbeyond⟩ := behind_corner (y - x).normSq_nonneg (z - x).normSq_nonneg
    (Vec3.dot_mul_self_le (y - x) (z - x)) hbehind hahead (sub_nonpos.mp (not_lt.mp hside))
  have hzx : along p z x = (z - x).normSq - along p x z :=
    eq_sub_of_add_eq' (along_add_along p x z)
  have hzy : along p z y =
      along p x y - (y - x).dot (z - x) - (along p x z - (z - x).normSq) := by
    simp only [along, Vec3.normSq, Vec3.dot, Vec3.sub_x, Vec3.sub_y, Vec3.sub_z]
    ring
  have hside_xz : side p x z y ≤ 0 := by
    rwa [side, Vec3.dot_comm (z - x)]
  -- The point is outside of `xz` but not in its region, so it is beyond `z`, and then at `z`.
  have hfar : along p z x < 0 := by
    by_contra hle
    exact hxz ⟨hside_xz, hahead.le, not_lt.mp hle⟩
  have hbeyond := hbeyond (by linarith)
  exact hz ⟨hfar.le, by linarith⟩

/-- A point that is in no region of a corner or an edge lies on the inner side of each edge. -/
theorem side_pos (hx : ¬AtCorner p x y z) (hy : ¬AtCorner p y x z) (hz : ¬AtCorner p z x y)
    (hxy : ¬AtEdge p x y z) (hxz : ¬AtEdge p x z y) (hyz : ¬AtEdge p y z x) :
    0 < side p x y z := by
  rcases lt_or_ge (along p x y) 0 with hbehind | hahead
  · exact side_pos_of_behind hbehind hx hz hxz
  rcases lt_or_ge (along p y x) 0 with hbehind | hahead'
  · rw [← side_comm]
    exact side_pos_of_behind hbehind hy (fun h => hz h.symm) hyz
  · by_contra hside
    exact hxy ⟨not_lt.mp hside, hahead, hahead'⟩

/-- Between two equal corners there is no region of an edge. -/
theorem atEdge_of_eq (h : x = y) (hx : ¬AtCorner p x y z) (hz : ¬AtCorner p z x y) :
    AtEdge p x z y := by
  subst h
  have hzero := along_self p x
  refine ⟨?_, ?_, ?_⟩
  · rw [side, hzero, sub_self, Vec3.dot_zero, mul_zero, mul_zero, sub_self]
  · by_contra hlt
    exact hx ⟨hzero.le, (not_le.mp hlt).le⟩
  · by_contra hlt
    exact hz ⟨(not_le.mp hlt).le, (not_le.mp hlt).le⟩

/-! ## The nearest point in each region -/

theorem corner_mem (x y z : Vec3 ℝ) : x ∈ triangle x y z := subset_convexHull ℝ _ (by simp)

theorem AtCorner.isNearest (h : AtCorner p x y z) : IsNearest p (triangle x y z) x := by
  apply isNearest_of_corners (corner_mem x y z)
  · rw [sub_self, Vec3.dot_zero]
  · exact (Vec3.dot_comm _ _).trans_le h.1
  · exact (Vec3.dot_comm _ _).trans_le h.2

/-- A point of a triangle is the nearest one to `p` if the rest of the way to `p` is perpendicular to
the edge `xy` and, unless the point lies on that edge, to the edge `xz`. -/
theorem isNearest_of_perpendicular {v w : ℝ} (hv : 0 ≤ v) (hw : 0 ≤ w) (hvw : v + w ≤ 1)
    (hy : along p x y = v * (y - x).normSq + w * (y - x).dot (z - x))
    (hz : along p x z ≤ v * (y - x).dot (z - x) + w * (z - x).normSq)
    (hslack : w * (along p x z - (v * (y - x).dot (z - x) + w * (z - x).normSq)) = 0) :
    IsNearest p (triangle x y z) (x + (y - x) * v + (z - x) * w) := by
  have hmem : x + (y - x) * v + (z - x) * w ∈ triangle x y z := by
    have hcombination : x + (y - x) * v + (z - x) * w = (1 - v - w) • x + v • y + w • z := by
      simp only [Vec3.mul_real]
      module
    rw [hcombination]
    exact combination_mem (by linarith) hv hw (by ring)
  generalize hq : x + (y - x) * v + (z - x) * w = q at hmem ⊢
  have hrest_y : (p - q).dot (y - x) = 0 := by
    rw [← sub_eq_zero] at hy
    rw [← hy, ← hq]
    simp only [along, Vec3.normSq, Vec3.dot, Vec3.sub_x, Vec3.sub_y, Vec3.sub_z, Vec3.add_x,
      Vec3.add_y, Vec3.add_z, Vec3.mul_x, Vec3.mul_y, Vec3.mul_z]
    ring
  have hrest_z : (p - q).dot (z - x) =
      along p x z - (v * (y - x).dot (z - x) + w * (z - x).normSq) := by
    rw [← hq]
    simp only [along, Vec3.normSq, Vec3.dot, Vec3.sub_x, Vec3.sub_y, Vec3.sub_z, Vec3.add_x,
      Vec3.add_y, Vec3.add_z, Vec3.mul_x, Vec3.mul_y, Vec3.mul_z]
    ring
  have hrest : ∀ r, (p - q).dot (r - q) =
      (p - q).dot (r - x) - v * (p - q).dot (y - x) - w * (p - q).dot (z - x) := by
    intro r
    rw [← hq]
    simp only [Vec3.dot, Vec3.sub_x, Vec3.sub_y, Vec3.sub_z, Vec3.add_x,
      Vec3.add_y, Vec3.add_z, Vec3.mul_x, Vec3.mul_y, Vec3.mul_z]
    ring
  apply isNearest_of_corners hmem
  · rw [hrest, hrest_y, hrest_z, hslack, sub_self, Vec3.dot_zero]
    simp
  · rw [hrest, hrest_y, hrest_z, hslack]
    simp
  · rw [hrest, hrest_y, hrest_z, hslack]
    simpa using hz

theorem AtEdge.isNearest (h : AtEdge p x y z) (hxy : x ≠ y) :
    IsNearest p (triangle x y z) (x + (y - x) * (along p x y / (y - x).normSq)) := by
  obtain ⟨hside, hahead, hback⟩ := h
  have hpos : 0 < (y - x).normSq := Vec3.normSq_pos (sub_ne_zero.mpr hxy.symm)
  have hle : along p x y ≤ (y - x).normSq := by
    rw [← along_add_along]
    exact le_add_of_nonneg_right hback
  have hweight : along p x y / (y - x).normSq * (y - x).normSq = along p x y :=
    div_mul_cancel₀ _ hpos.ne'
  have hz : along p x z ≤ along p x y / (y - x).normSq * (y - x).dot (z - x) := by
    rw [div_mul_eq_mul_div, le_div_iff₀ hpos, mul_comm]
    exact sub_nonpos.mp hside
  have hnearest := isNearest_of_perpendicular (p := p) (x := x) (y := y) (z := z)
    (v := along p x y / (y - x).normSq) (w := 0) (div_nonneg hahead hpos.le) le_rfl
    (by rw [add_zero]; exact (div_le_one hpos).mpr hle) (by rw [zero_mul, add_zero, hweight])
    (by rw [zero_mul, add_zero]; exact hz) (zero_mul _)
  rwa [Vec3.mul_real _ 0, zero_smul, add_zero] at hnearest

theorem sum_sides (p x y z : Vec3 ℝ) :
    side p y z x + side p x z y + side p x y z =
      (y - x).normSq * (z - x).normSq - (y - x).dot (z - x) * (y - x).dot (z - x) := by
  simp only [side, along, Vec3.normSq, Vec3.dot, Vec3.sub_x, Vec3.sub_y, Vec3.sub_z]
  ring

/-- The foot of the perpendicular from `p`, where it lies on the inner side of each edge. -/
theorem isNearest_foot (hyz : 0 < side p y z x) (hxz : 0 < side p x z y) (hxy : 0 < side p x y z) :
    let share := (side p y z x + side p x z y + side p x y z)⁻¹
    IsNearest p (triangle x y z)
      (x + (y - x) * (side p x z y * share) + (z - x) * (side p x y z * share)) := by
  intro share
  have hsum : 0 < side p y z x + side p x z y + side p x y z := add_pos (add_pos hyz hxz) hxy
  have hshare : share * (side p y z x + side p x z y + side p x y z) = 1 :=
    inv_mul_cancel₀ hsum.ne'
  have hshare_pos : 0 < share := inv_pos.mpr hsum
  have hy : along p x y = side p x z y * share * (y - x).normSq +
      side p x y z * share * (y - x).dot (z - x) := by
    rw [sum_sides] at hshare
    simp only [side, Vec3.dot_comm (z - x) (y - x)]
    linear_combination (-along p x y) * hshare
  have hz : along p x z = side p x z y * share * (y - x).dot (z - x) +
      side p x y z * share * (z - x).normSq := by
    rw [sum_sides] at hshare
    simp only [side, Vec3.dot_comm (z - x) (y - x)]
    linear_combination (-along p x z) * hshare
  refine isNearest_of_perpendicular (mul_pos hxz hshare_pos).le (mul_pos hxy hshare_pos).le ?_ hy
    hz.le ?_
  · have := mul_pos hyz hshare_pos
    linarith
  · rw [← hz, sub_self, mul_zero]

end Triangle

/-! ## The closest point on a triangle -/

section

open Triangle

variable (p a b c : Vec3 ℝ)

open Classical in
/-- The regions in the order in which they are told apart. -/
theorem closestOnTriangle_lift_eq :
    closestOnTriangle p.lift a.lift b.lift c.lift =
      if AtCorner p a b c then a.lift
      else if AtCorner p b a c then b.lift
      else if AtEdge p a b c then
        a.lift + (b - a).lift * (.real (along p a b) / .real (b - a).normSq : PartialReal)
      else if AtCorner p c a b then c.lift
      else if AtEdge p a c b then
        a.lift + (c - a).lift * (.real (along p a c) / .real (c - a).normSq : PartialReal)
      else if AtEdge p b c a then
        b.lift + (c - b).lift * (.real (along p b c) / .real (c - b).normSq : PartialReal)
      else
        let share := Scalar.recip (.real (side p b c a + side p a c b + side p a b c) : PartialReal)
        a.lift + (b - a).lift * (.real (side p a c b) * share : PartialReal) +
          (c - a).lift * (.real (side p a b c) * share : PartialReal) := by
  have hd₁ : (b - a).dot (p - a) = along p a b := rfl
  have hd₂ : (c - a).dot (p - a) = along p a c := rfl
  have hd₃ := dot_from_end p a b
  have hd₄ := dot_from_corner p a b c
  have hd₅ := dot_from_corner p a c b
  have hd₆ := dot_from_end p a c
  have hva : -along p b a * -along p c a -
      (along p c b - along p c a) * (along p b c - along p b a) = side p b c a := by
    rw [side_eq]
    ring
  have hvb : (along p c b - along p c a) * along p a c - along p a b * -along p c a =
      side p a c b := by
    rw [side_eq]
    ring
  have hvc : along p a b * (along p b c - along p b a) - -along p b a * along p a c =
      side p a b c := by
    rw [side_eq]
    ring
  have hab := along_add_along p a b
  have hac := along_add_along p a c
  have hbc := along_add_along p b c
  have hcorner : ∀ s t : ℝ, 0 ≤ -s ∧ t - s ≤ -s ↔ s ≤ 0 ∧ t ≤ 0 := by
    intro s t
    constructor <;> rintro ⟨hs, ht⟩ <;> constructor <;> linarith
  unfold closestOnTriangle AtCorner AtEdge
  simp only [Vec3.lift_sub, Vec3.lift_dot, hd₁, hd₂, hd₃, hd₄, hd₅, hd₆, PartialReal.real_sub,
    PartialReal.real_mul, PartialReal.real_add, PartialReal.zero_eq, PartialReal.real_le_iff, hva,
    hvb, hvc, hcorner, neg_nonpos, sub_neg_eq_add, sub_add_cancel, hab, hac, hbc]

/-- The first two corners coincide, and the point lies ahead of them as seen along the edge to the
third one. -/
def Pinched (p a b c : Vec3 ℝ) : Prop := a = b ∧ 0 < along p a c

variable {p a b c}

/-- The edge without length is taken for the nearest one. -/
theorem closestOnTriangle_pinched (h : Pinched p a b c) :
    closestOnTriangle p.lift a.lift b.lift c.lift = Vec3.undefined := by
  obtain ⟨rfl, hahead⟩ := h
  have hzero := along_self p a
  have hcorner : ¬AtCorner p a a c := fun h => h.2.not_gt hahead
  have hedge : AtEdge p a a c := by
    refine ⟨?_, hzero.ge, hzero.ge⟩
    rw [side, hzero, sub_self, Vec3.normSq_zero, zero_mul, zero_mul, sub_self]
  rw [closestOnTriangle_lift_eq, if_neg hcorner, if_neg hcorner, if_pos hedge, sub_self,
    Vec3.normSq_zero, PartialReal.div_zero, Vec3.mul_undefined, Vec3.add_undefined]

/-- The quotient by the squared length of an edge has a value when the edge has length. -/
theorem lift_edge_point {x y : Vec3 ℝ} (h : x ≠ y) (t : ℝ) :
    x.lift + (y - x).lift * (.real t / .real (y - x).normSq : PartialReal) =
      (x + (y - x) * (t / (y - x).normSq)).lift := by
  rw [PartialReal.real_div (Vec3.normSq_pos (sub_ne_zero.mpr h.symm)).ne', Vec3.lift_mul,
    Vec3.lift_add]

/-- Otherwise the answer is a number and the nearest point of the triangle. An edge without length is
not reached except for the first one, as a corner or an edge of positive length comes first. -/
theorem closestOnTriangle_lift (h : ¬Pinched p a b c) :
    ∃ q, closestOnTriangle p.lift a.lift b.lift c.lift = q.lift ∧
      IsNearest p (triangle a b c) q := by
  rw [closestOnTriangle_lift_eq]
  by_cases ha : AtCorner p a b c
  · exact ⟨a, if_pos ha, ha.isNearest⟩
  rw [if_neg ha]
  by_cases hb : AtCorner p b a c
  · rw [if_pos hb]
    exact ⟨b, rfl, by simpa only [triangle, Set.insert_comm] using hb.isNearest⟩
  rw [if_neg hb]
  by_cases hab : AtEdge p a b c
  · have hne : a ≠ b := by
      intro heq
      have hahead : ¬0 < along p a c := fun hlt => h ⟨heq, hlt⟩
      subst heq
      exact ha ⟨(along_self p a).le, not_lt.mp hahead⟩
    rw [if_pos hab, lift_edge_point hne]
    exact ⟨_, rfl, hab.isNearest hne⟩
  rw [if_neg hab]
  by_cases hc : AtCorner p c a b
  · rw [if_pos hc]
    exact ⟨c, rfl, rotate c a b ▸ hc.isNearest⟩
  rw [if_neg hc]
  by_cases hac : AtEdge p a c b
  · have hne : a ≠ c := fun heq => hab (atEdge_of_eq heq (fun h => ha h.symm) hb)
    rw [if_pos hac, lift_edge_point hne]
    exact ⟨_, rfl, swap a b c ▸ hac.isNearest hne⟩
  rw [if_neg hac]
  by_cases hbc : AtEdge p b c a
  · have hne : b ≠ c := fun heq => hab (atEdge_of_eq heq (fun h => hb h.symm) ha).symm
    rw [if_pos hbc, lift_edge_point hne]
    exact ⟨_, rfl, rotate a b c ▸ hbc.isNearest hne⟩
  rw [if_neg hbc]
  have hside_ab : 0 < side p a b c := side_pos ha hb hc hab hac hbc
  have hside_ac : 0 < side p a c b :=
    side_pos (fun h => ha h.symm) hc hb hac hab fun h => hbc h.symm
  have hside_bc : 0 < side p b c a :=
    side_pos (fun h => hb h.symm) (fun h => hc h.symm) ha hbc (fun h => hab h.symm)
      fun h => hac h.symm
  have hsum : side p b c a + side p a c b + side p a b c ≠ 0 :=
    (add_pos (add_pos hside_bc hside_ac) hside_ab).ne'
  dsimp only
  rw [PartialReal.recip_real hsum]
  exact ⟨_, rfl, isNearest_foot hside_bc hside_ac hside_ab⟩

/-! ## The same over the reals -/

variable {q : Vec3 ℝ}

theorem edge_point_of_lift {x d : Vec3 ℝ} {s t : ℝ}
    (h : x.lift + d.lift * (.real s / .real t : PartialReal) = q.lift) : x + d * (s / t) = q := by
  by_cases ht : t = 0
  · rw [ht, PartialReal.div_zero, Vec3.mul_undefined, Vec3.add_undefined] at h
    exact absurd h.symm q.lift_ne_undefined
  · rw [PartialReal.real_div ht] at h
    exact Vec3.lift_injective h

theorem inner_point_of_lift {x d e : Vec3 ℝ} {s t total : ℝ}
    (h : x.lift + d.lift * (.real s * Scalar.recip (.real total) : PartialReal) +
      e.lift * (.real t * Scalar.recip (.real total) : PartialReal) = q.lift) :
    x + d * (s * Scalar.recip total) + e * (t * Scalar.recip total) = q := by
  by_cases htotal : total = 0
  · have hshare : Scalar.recip (.real total : PartialReal) = .undefined := by
      rw [htotal]
      exact PartialReal.div_zero _
    rw [hshare] at h
    exact absurd h.symm q.lift_ne_undefined
  · rw [PartialReal.recip_real htotal] at h
    rw [Scalar.recip_real]
    exact Vec3.lift_injective h

/-- An answer that has a value is the one that the reals give, where a quotient by zero is a number. -/
theorem closestOnTriangle_of_lift (h : closestOnTriangle p.lift a.lift b.lift c.lift = q.lift) :
    closestOnTriangle p a b c = q := by
  unfold closestOnTriangle at h ⊢
  simp only [Vec3.lift_sub, Vec3.lift_dot, PartialReal.real_sub, PartialReal.real_mul,
    PartialReal.real_add, PartialReal.zero_eq, PartialReal.real_le_iff] at h
  dsimp only
  split_ifs at h ⊢
  · exact Vec3.lift_injective h
  · exact Vec3.lift_injective h
  · exact edge_point_of_lift h
  · exact Vec3.lift_injective h
  · exact edge_point_of_lift h
  · exact edge_point_of_lift h
  · exact inner_point_of_lift h

/-- Where the first two corners differ nothing is divided by zero, and of all convex combinations of
the corners the answer is the nearest one, however thin the triangle is. -/
theorem closestOnTriangle_nearest (h : a ≠ b) (p c : Vec3 ℝ) :
    closestOnTriangle p.lift a.lift b.lift c.lift = (closestOnTriangle p a b c).lift ∧
      IsNearest p (triangle a b c) (closestOnTriangle p a b c) := by
  have hpinched : ¬Pinched p a b c := fun hpinched => h hpinched.1
  obtain ⟨q, hq, hnearest⟩ := closestOnTriangle_lift hpinched
  rw [closestOnTriangle_of_lift hq]
  exact ⟨hq, hnearest⟩

/-- A triangle folded flat, with its second corner between the others. -/
theorem closestOnTriangle_nearest_flat :
    let a : Vec3 ℝ := 0
    let b : Vec3 ℝ := ⟨1, 0, 0⟩
    let c : Vec3 ℝ := ⟨3, 0, 0⟩
    let p : Vec3 ℝ := ⟨2, 1, 0⟩
    let q : Vec3 ℝ := ⟨2, 0, 0⟩
    a ≠ b ∧ closestOnTriangle p.lift a.lift b.lift c.lift = q.lift ∧
      IsNearest p (triangle a b c) q := by
  intro a b c p q
  have hne : a ≠ b := fun heq => zero_ne_one (congrArg Vec3.x heq)
  have hvalue : closestOnTriangle p a b c = q := by
    ext <;> norm_num [closestOnTriangle, Vec3.dot, a, b, c, p, q]
  obtain ⟨hlift, hnearest⟩ := closestOnTriangle_nearest hne p c
  rw [hvalue] at hlift hnearest
  exact ⟨hne, hlift, hnearest⟩

end

end Relaxation
