import Relaxation.Proofs.Description
import Relaxation.Proofs.Fit.Circle

/-!
# Projections onto lines, planes, rays, circles and spheres

The closest points in closed form. Each answer is a point of the primitive, and no other point of it is
nearer, so that a second projection leaves the point where the first one put it (`IsNearest.eq_self`). On
circles and spheres all points are equally far from the center, and the nearest one lies in the direction
of the offset, by the Cauchy–Schwarz inequality (`Sphere.isNearest_closestPoint`,
`Circle.isNearest_closestPoint`).
-/

namespace Relaxation

theorem Vec3.normSq_eq_one {a : Vec3 ℝ} (h : a.norm = 1) : a.normSq = 1 := by
  rw [← norm_mul_self, h, one_mul]

/-- A point of the set is its own nearest point. -/
theorem IsNearest.eq_self {p q : Vec3 ℝ} {s : Set (Vec3 ℝ)} (h : IsNearest p s q) (hp : p ∈ s) :
    q = p := by
  have hle := h.le p hp
  have hself : p.distSq p = 0 := by rw [Vec3.distSq, sub_self, Vec3.normSq_zero]
  rw [hself] at hle
  exact sub_eq_zero.mp (Vec3.eq_zero_of_normSq (le_antisymm hle (q - p).normSq_nonneg))

/-- Every point is taken to the nearest point of a set, and from there nowhere else. -/
def Projects (s : Set (Vec3 ℝ)) (closest : Vec3 ℝ → Vec3 ℝ) : Prop :=
  ∀ p, IsNearest p s (closest p) ∧ closest (closest p) = closest p

theorem projects_of_isNearest {s : Set (Vec3 ℝ)} {closest : Vec3 ℝ → Vec3 ℝ}
    (h : ∀ p, IsNearest p s (closest p)) : Projects s closest :=
  fun p => ⟨h p, (h (closest p)).eq_self (h p).mem⟩

/-! ## Lines, planes and rays -/

theorem Line.projects {l : Line ℝ} (h : l.direction.norm = 1) :
    Projects l.carrier l.closestPoint :=
  projects_of_isNearest (isNearest_closestPoint (Vec3.normSq_eq_one h))

theorem Plane.projects {l : Plane ℝ} (h : l.normal.norm = 1) :
    Projects l.carrier l.closestPoint :=
  projects_of_isNearest (isNearest_closestPoint (Vec3.normSq_eq_one h))

namespace Ray

/-- The points of a ray, its origin among them. -/
def carrier (r : Ray ℝ) : Set (Vec3 ℝ) := {x | ∃ t : ℝ, 0 ≤ t ∧ x = r.origin + r.direction * t}

/-- The nearest point of the line, or the origin where that point lies behind it. -/
theorem isNearest_closestPoint {r : Ray ℝ} (h : r.direction.normSq = 1) (p : Vec3 ℝ) :
    IsNearest p r.carrier (r.closestPoint p) := by
  rw [closestPoint, Scalar.max_real]
  refine ⟨⟨_, le_max_right _ _, rfl⟩, ?_⟩
  rintro _ ⟨t, ht, rfl⟩
  generalize hu : (p - r.origin).dot r.direction = u
  have hsquare : ∀ t, (r.origin + r.direction * t).distSq p =
      (p - r.origin).normSq - u ^ 2 + (t - u) ^ 2 := by
    intro t
    simp only [Vec3.distSq, Vec3.normSq, Vec3.dot, Vec3.sub_x, Vec3.sub_y, Vec3.sub_z,
      Vec3.add_x, Vec3.add_y, Vec3.add_z, Vec3.mul_x, Vec3.mul_y, Vec3.mul_z] at *
    linear_combination t ^ 2 * h - 2 * t * hu
  rw [hsquare, hsquare]
  refine add_le_add_right (sq_le_sq.mpr ?_) _
  rcases le_total u 0 with hu | hu
  · rw [max_eq_right hu, zero_sub, abs_neg, abs_of_nonpos hu, abs_of_nonneg (by linarith)]
    linarith
  · rw [max_eq_left hu, sub_self, abs_zero]
    exact abs_nonneg _

theorem projects {r : Ray ℝ} (h : r.direction.norm = 1) : Projects r.carrier r.closestPoint :=
  projects_of_isNearest (isNearest_closestPoint (Vec3.normSq_eq_one h))

theorem norm_direction_of_make {origin direction : Vec3 ℝ} {r : Ray ℝ}
    (h : make origin direction = .ok r) : r.direction.norm = 1 := by
  obtain ⟨u, hu, h⟩ := Checked.bind_eq_ok.mp h
  cases Checked.pure_eq_ok.mp h
  exact norm_of_checkedUnit_eq_ok hu

end Ray

/-! ## Spheres and circles -/

namespace Vec3

/-- Of two points equally far from `c`, the one that lies further in the direction of `p` is nearer. -/
theorem distSq_le_of_dot_le {c p q x : Vec3 ℝ} (hsize : (q - c).normSq = (x - c).normSq)
    (hdot : (x - c).dot (p - c) ≤ (q - c).dot (p - c)) : q.distSq p ≤ x.distSq p := by
  have hexpand : ∀ y : Vec3 ℝ,
      y.distSq p = (y - c).normSq - 2 * (y - c).dot (p - c) + (p - c).normSq := fun y => by
    simp only [distSq, normSq, dot, sub_x, sub_y, sub_z]
    ring
  rw [hexpand, hexpand, hsize]
  linarith

theorem norm_normalize_mul {u : Vec3 ℝ} (hu : u ≠ 0) {r : ℝ} (hr : 0 ≤ r) :
    (u.normalize * r).norm = r := by
  rw [norm_mul, norm_normalize hu, one_mul, abs_of_nonneg hr]

/-- Of all vectors of a length the one in the direction of `d` lies furthest in that direction. Where `d`
vanishes, none lies further than another. -/
theorem dot_le_normalize_mul_dot {d u v : Vec3 ℝ} {r : ℝ} (hu : u ≠ 0) (hd : d = 0 ∨ u = d)
    (hv : v.norm = r) : v.dot d ≤ (u.normalize * r).dot d := by
  obtain rfl | rfl := hd
  · rw [dot_zero, dot_zero]
  have hself : u.normalize.dot u = u.norm := by
    calc u.normalize.dot u = u.normalize.dot (u.normalize * u.norm) := by rw [normalize_mul_norm hu]
      _ = u.norm := by rw [dot_mul, ← normSq, normSq_normalize hu, one_mul]
  calc v.dot u ≤ v.norm * u.norm := dot_le_norm_mul_norm v u
    _ = (u.normalize * r).dot u := by rw [dot_comm _ u, dot_mul, dot_comm u, hself, hv, mul_comm]

/-- An offset from a center that is not taken for one by mistake: it vanishes only if it is zero. -/
def Clear (v : Vec3 ℝ) : Prop := v = 0 ∨ ¬v.almostZero 1e-12 = true

/-- The offset that the closest points go by, another one in place of one that almost vanishes. -/
theorem Clear.eq_zero_or_eq {v w : Vec3 ℝ} (h : v.Clear) :
    v = 0 ∨ (if v.almostZero 1e-12 then w else v) = v :=
  h.imp_right fun hfar => if_neg hfar

end Vec3

/-- Every point is taken to a point of a set about a center: to the nearest one if its offset is clear
of the center, and from there nowhere else unless the set has shrunk into its center. -/
def ProjectsAround (s : Set (Vec3 ℝ)) (closest offset : Vec3 ℝ → Vec3 ℝ) (center : Vec3 ℝ) : Prop :=
  ∀ p, closest p ∈ s ∧ ((offset p).Clear → IsNearest p s (closest p)) ∧
    (¬(closest p - center).almostZero 1e-12 = true → closest (closest p) = closest p)

/-- It is enough to know the nearest points if the points of the set are their own offsets. -/
theorem projectsAround_of_isNearest {s : Set (Vec3 ℝ)} {closest offset : Vec3 ℝ → Vec3 ℝ}
    {center : Vec3 ℝ} (hmem : ∀ p, closest p ∈ s)
    (hnearest : ∀ p, (offset p).Clear → IsNearest p s (closest p))
    (hoffset : ∀ p ∈ s, offset p = p - center) : ProjectsAround s closest offset center := by
  intro p
  refine ⟨hmem p, hnearest p, fun hfar => ?_⟩
  have hclear : (offset (closest p)).Clear := by
    rw [hoffset _ (hmem p)]
    exact .inr hfar
  exact (hnearest _ hclear).eq_self (hmem p)

namespace Sphere

/-- The points of a sphere. -/
def carrier (s : Sphere ℝ) : Set (Vec3 ℝ) := {x | (x - s.center).norm = s.radius}

theorem direction_ne_zero {s : Sphere ℝ} (p : Vec3 ℝ) :
    (if (p - s.center).almostZero 1e-12 then Vec3.xAxis else p - s.center) ≠ 0 :=
  Vec3.ite_almostZero_ne_zero (by norm_num) Vec3.xAxis_ne_zero

variable {s : Sphere ℝ} (h : 0 ≤ s.radius)

include h

theorem closestPoint_mem (p : Vec3 ℝ) : s.closestPoint p ∈ s.carrier := by
  rw [carrier, Set.mem_ofPred_eq, closestPoint, add_sub_cancel_left]
  exact Vec3.norm_normalize_mul (direction_ne_zero p) h

theorem isNearest_closestPoint {p : Vec3 ℝ} (hp : (p - s.center).Clear) :
    IsNearest p s.carrier (s.closestPoint p) := by
  refine ⟨closestPoint_mem h p, fun x hx => Vec3.distSq_le_of_dot_le (c := s.center) ?_ ?_⟩
  · rw [← Vec3.norm_mul_self, ← Vec3.norm_mul_self, closestPoint_mem h p, hx]
  · rw [closestPoint, add_sub_cancel_left]
    exact Vec3.dot_le_normalize_mul_dot (direction_ne_zero p) hp.eq_zero_or_eq hx

theorem projects : ProjectsAround s.carrier s.closestPoint (· - s.center) s.center :=
  projectsAround_of_isNearest (closestPoint_mem h) (fun _ => isNearest_closestPoint h) fun _ _ => rfl

end Sphere

namespace Circle

/-- The points of a circle. -/
def carrier (c : Circle ℝ) : Set (Vec3 ℝ) :=
  {x | (x - c.center).dot c.normal = 0 ∧ (x - c.center).norm = c.radius}

/-- The offset of a point from the axis. -/
noncomputable def inPlane (c : Circle ℝ) (p : Vec3 ℝ) : Vec3 ℝ :=
  p - c.center - c.normal * (p - c.center).dot c.normal

theorem inPlane_of_mem {c : Circle ℝ} {x : Vec3 ℝ} (hx : x ∈ c.carrier) :
    c.inPlane x = x - c.center := by
  rw [inPlane, hx.1, Vec3.mul_real, zero_smul, sub_zero]

/-- A vector of the plane sees no more of a point than its offset from the axis. -/
theorem dot_inPlane (c : Circle ℝ) {v : Vec3 ℝ} (hv : v.dot c.normal = 0) (p : Vec3 ℝ) :
    v.dot (c.inPlane p) = v.dot (p - c.center) := by
  rw [inPlane, sub_eq_add_neg, Vec3.dot_add, Vec3.dot_neg, Vec3.dot_mul, hv, zero_mul, neg_zero,
    add_zero]

/-- There are no points at a negative distance. -/
theorem carrier_eq_empty {c : Circle ℝ} (h : c.radius < 0) : c.carrier = ∅ :=
  Set.eq_empty_of_forall_notMem fun _ hx => h.not_ge (hx.2 ▸ Vec3.norm_nonneg _)

/-- The radius of a fitted circle is a square root. -/
theorem radius_nonneg_of_ofPoints? {points : List (Vec3 ℝ)} {c : Circle ℝ}
    (h : ofPoints? points = some c) : 0 ≤ c.radius := by
  obtain ⟨l, -, h⟩ := exists_plane_of_ofPoints? h
  rw [inPlane?, Option.ite_none_left_eq_some] at h
  cases h.2
  exact Real.sqrt_nonneg _

variable {c : Circle ℝ} (hnormal : c.normal.normSq = 1)

include hnormal

theorem inPlane_dot_normal (p : Vec3 ℝ) : (c.inPlane p).dot c.normal = 0 := by
  have hself : c.normal.dot c.normal = 1 := hnormal
  rw [Vec3.dot_comm, inPlane, sub_eq_add_neg, Vec3.dot_add, Vec3.dot_neg, Vec3.dot_mul, hself,
    one_mul, Vec3.dot_comm c.normal, add_neg_cancel]

theorem direction_ne_zero (p : Vec3 ℝ) :
    (if (c.inPlane p).almostZero 1e-12 then c.normal.perpendicular else c.inPlane p) ≠ 0 := by
  have hne : c.normal ≠ 0 := by
    intro hzero
    rw [hzero, Vec3.normSq_zero] at hnormal
    exact zero_ne_one hnormal
  exact Vec3.ite_almostZero_ne_zero (by norm_num) (Vec3.perpendicular_ne_zero hne)

variable (hradius : 0 ≤ c.radius)

include hradius

theorem closestPoint_mem (p : Vec3 ℝ) : c.closestPoint p ∈ c.carrier := by
  rw [carrier, Set.mem_ofPred_eq, closestPoint, add_sub_cancel_left]
  constructor
  · rw [Vec3.dot_comm, Vec3.dot_mul, Vec3.normalize, Vec3.dot_mul, Vec3.dot_comm]
    split_ifs
    · rw [Vec3.perpendicular_dot_self, zero_mul, zero_mul]
    · rw [← inPlane, inPlane_dot_normal hnormal, zero_mul, zero_mul]
  · exact Vec3.norm_normalize_mul (direction_ne_zero hnormal p) hradius

theorem isNearest_closestPoint {p : Vec3 ℝ} (hp : (c.inPlane p).Clear) :
    IsNearest p c.carrier (c.closestPoint p) := by
  have hmem := closestPoint_mem hnormal hradius p
  refine ⟨hmem, fun x hx => Vec3.distSq_le_of_dot_le (c := c.center) ?_ ?_⟩
  · rw [← Vec3.norm_mul_self, ← Vec3.norm_mul_self, hmem.2, hx.2]
  · rw [← c.dot_inPlane hx.1, ← c.dot_inPlane hmem.1, closestPoint, add_sub_cancel_left]
    exact Vec3.dot_le_normalize_mul_dot (direction_ne_zero hnormal p) hp.eq_zero_or_eq hx.2

theorem projects : ProjectsAround c.carrier c.closestPoint c.inPlane c.center :=
  projectsAround_of_isNearest (closestPoint_mem hnormal hradius)
    (fun _ => isNearest_closestPoint hnormal hradius) fun _ => inPlane_of_mem

end Circle

/-! ## All of them -/

/-- In exact arithmetic the closest points of the primitives are nearest points, and a second projection
changes nothing. Spheres and circles are exempt where a point is taken for one of the center or the
axis and is not, but it is taken to one of their points even then. -/
theorem projections_nearest :
    (∀ origin direction (l : Line ℝ), Line.make origin direction = .ok l →
      Projects l.carrier l.closestPoint) ∧
    (∀ origin normal (l : Plane ℝ), Plane.make origin normal = .ok l →
      Projects l.carrier l.closestPoint) ∧
    (∀ f : LineFit ℝ, f.direction.norm = 1 → Projects f.carrier f.closestPoint) ∧
    (∀ f : PlaneFit ℝ, f.normal.norm = 1 → Projects f.carrier f.closestPoint) ∧
    (∀ origin direction (r : Ray ℝ), Ray.make origin direction = .ok r → r.direction.norm = 1) ∧
    (∀ r : Ray ℝ, r.direction.norm = 1 →
      Projects r.carrier r.closestPoint ∧ ∀ p, r.distSq p = p.gapSq r.carrier) ∧
    (∀ s : Sphere ℝ, 0 ≤ s.radius →
      ProjectsAround s.carrier s.closestPoint (· - s.center) s.center) ∧
    (∀ c : Circle ℝ, c.normal.norm = 1 →
      (0 ≤ c.radius → ProjectsAround c.carrier c.closestPoint c.inPlane c.center) ∧
      (c.radius < 0 → c.carrier = ∅)) ∧
    (∀ (points : List (Vec3 ℝ)) c, Circle.ofPoints? points = some c → 0 ≤ c.radius) := by
  refine ⟨fun origin direction l h => ?_, fun origin normal l h => ?_, fun f h => Line.projects h,
    fun f h => Plane.projects h, fun _ _ _ => Ray.norm_direction_of_make,
    fun r h => ⟨Ray.projects h, fun p => ?_⟩, fun s h => Sphere.projects h,
    fun c h => ⟨Circle.projects (Vec3.normSq_eq_one h), ?_⟩,
    fun points c => Circle.radius_nonneg_of_ofPoints?⟩
  · exact Line.projects ((Shape.Built.line h).norm_axes _ (List.mem_singleton_self _))
  · exact Plane.projects ((Shape.Built.plane h).norm_axes _ (List.mem_singleton_self _))
  · exact (Ray.projects h p).1.gapSq_eq.symm
  · exact Circle.carrier_eq_empty

/-- Vertical primitives. All points of the sphere and of the circle are equally far from the origin and
from `unit`; from `off`, which is neither at the center nor on the axis, one is nearer than the others. -/
theorem projections_nearest_upright :
    let up : Vec3 ℝ := ⟨0, 0, 2⟩
    let unit : Vec3 ℝ := ⟨0, 0, 1⟩
    let off : Vec3 ℝ := ⟨4, 0, 3⟩
    let l : LineFit ℝ := ⟨⟨0, unit⟩, .colinear⟩
    let l' : PlaneFit ℝ := ⟨⟨0, unit⟩, ⟨1, 0, 0⟩, ⟨0, 1, 0⟩, .coplanar⟩
    let r : Ray ℝ := ⟨0, unit⟩
    let s : Sphere ℝ := ⟨0, 3⟩
    let c : Circle ℝ := ⟨0, unit, 3⟩
    (Line.make 0 up = .ok l.toLine ∧ Projects l.carrier l.closestPoint) ∧
    (Plane.make 0 up = .ok l'.toPlane ∧ Projects l'.carrier l'.closestPoint) ∧
    (Ray.make 0 up = .ok r ∧ Projects r.carrier r.closestPoint) ∧
    (IsNearest 0 s.carrier (s.closestPoint 0) ∧ IsNearest off s.carrier ⟨12 / 5, 0, 9 / 5⟩) ∧
    IsNearest unit c.carrier (c.closestPoint unit) ∧ IsNearest off c.carrier ⟨3, 0, 0⟩ := by
  intro up unit off l l' r s c
  have hup : ∀ part what, checkedUnit part what up = .ok unit := fun part what => by
    have hnorm : up.norm = 2 :=
      Vec3.norm_eq_of_normSq zero_le_two (by norm_num [up, Vec3.normSq, Vec3.dot])
    refine checkedUnit_eq_ok_iff.mpr ⟨?_, ?_⟩
    · norm_num [up, Vec3.almostZero]
    · rw [Vec3.normalize, hnorm, Scalar.recip_real]
      ext <;> norm_num [up, unit]
  have hunit : unit.norm = 1 := norm_of_checkedUnit_eq_ok (hup .ray "direction")
  have hradius : (0 : ℝ) ≤ 3 := by norm_num
  have hline : Line.make 0 up = .ok l.toLine := by rw [Line.make, hup]; rfl
  have hplane : Plane.make 0 up = .ok l'.toPlane := by rw [Plane.make, hup]; rfl
  have hray : Ray.make 0 up = .ok r := by rw [Ray.make, hup]; rfl
  have hcenter : ((0 : Vec3 ℝ) - s.center).Clear := .inl (sub_self _)
  have haxis : (c.inPlane unit).Clear := by
    refine .inl ?_
    ext <;> norm_num [Circle.inPlane, c, unit, Vec3.dot]
  have hfar : ¬(off - s.center).almostZero 1e-12 = true := by
    norm_num [off, s, Vec3.almostZero]
  have hinPlane : c.inPlane off = ⟨4, 0, 0⟩ := by
    ext <;> norm_num [Circle.inPlane, c, off, unit, Vec3.dot]
  have hfar' : ¬(c.inPlane off).almostZero 1e-12 = true := by
    rw [hinPlane]
    norm_num [Vec3.almostZero]
  have hsphere : s.closestPoint off = ⟨12 / 5, 0, 9 / 5⟩ := by
    have hnorm : (off - s.center).norm = 5 :=
      Vec3.norm_eq_of_normSq (by norm_num) (by norm_num [off, s, Vec3.normSq, Vec3.dot])
    rw [Sphere.closestPoint, if_neg hfar, Vec3.normalize, hnorm, Scalar.recip_real]
    ext <;> norm_num [off, s]
  have hcircle : c.closestPoint off = ⟨3, 0, 0⟩ := by
    have hnorm : (c.inPlane off).norm = 4 :=
      Vec3.norm_eq_of_normSq (by norm_num) (by norm_num [hinPlane, Vec3.normSq, Vec3.dot])
    change c.center + (if (c.inPlane off).almostZero 1e-12 then _ else c.inPlane off).normalize * _ = _
    rw [if_neg hfar', Vec3.normalize, hnorm, hinPlane, Scalar.recip_real]
    ext <;> norm_num [c]
  obtain ⟨-, -, hlines, hplanes, hmade, hrays, hspheres, hcircles, -⟩ := projections_nearest
  have hcircle_projects := (hcircles c hunit).1 hradius
  refine ⟨⟨hline, hlines l hunit⟩, ⟨hplane, hplanes l' hunit⟩,
    ⟨hray, (hrays r (hmade _ _ r hray)).1⟩, ⟨(hspheres s hradius 0).2.1 hcenter, ?_⟩,
    (hcircle_projects unit).2.1 haxis, ?_⟩
  · exact hsphere ▸ (hspheres s hradius off).2.1 (.inr hfar)
  · exact hcircle ▸ (hcircle_projects off).2.1 (.inr hfar')

end Relaxation
