import Mathlib.Analysis.SpecialFunctions.Trigonometric.Inverse
import Relaxation.Goal.Aim
import Relaxation.Proofs.Geometry.Vec2
import Relaxation.Proofs.Geometry.Vec3
import Relaxation.Proofs.Lists

/-!
# When polygons come apart

Over the reals the translation that separates two overlapping polygons has the length of their
least overlap, and the direction of the line between their centroids. It takes the one out of the
other exactly when in that direction neither begins before the other and ends after it
(`Polygon.separates_iff_leads`); a polygon whose extent lies within that of the other has to go
farther, and stays caught.
-/

namespace Relaxation.Polygon

variable {a b poly : List (Vec2 ℝ)} {axis n t : Vec2 ℝ} {lo hi amin amax bmin bmax : ℝ}

/-! ## Extents -/

/-- The coordinates of the vertices along an axis. -/
def shadow (poly : List (Vec2 ℝ)) (axis : Vec2 ℝ) : Set ℝ := {x | ∃ p ∈ poly, p.dot axis = x}

theorem isLeast_foldl_min (x : ℝ) (xs : List ℝ) :
    IsLeast {y | y ∈ x :: xs} (xs.foldl Scalar.min x) :=
  foldl_pick le_refl le_trans
    (fun x y => by
      rw [Scalar.min_real]
      exact ⟨min_choice x y, min_le_left x y, min_le_right x y⟩) x xs

theorem isGreatest_foldl_max (x : ℝ) (xs : List ℝ) :
    IsGreatest {y | y ∈ x :: xs} (xs.foldl Scalar.max x) :=
  foldl_pick (r := (· ≥ ·)) le_refl ge_trans
    (fun x y => by
      rw [Scalar.max_real]
      exact ⟨max_choice x y, le_max_left x y, le_max_right x y⟩) x xs

theorem exists_extent (h : poly ≠ []) (axis : Vec2 ℝ) : ∃ lo hi, extent poly axis = some (lo, hi) ∧
    IsLeast (shadow poly axis) lo ∧ IsGreatest (shadow poly axis) hi := by
  have hfilter : (poly.map (·.dot axis)).filter (fun x => x == x) = poly.map (·.dot axis) :=
    List.filter_eq_self.mpr fun x _ => Scalar.beq_real_iff.mpr rfl
  have hshadow : shadow poly axis = {x | x ∈ poly.map (·.dot axis)} := by
    ext x
    simp [shadow]
  rw [hshadow, extent, hfilter]
  cases poly with
  | nil => exact absurd rfl h
  | cons p ps => exact ⟨_, _, rfl, isLeast_foldl_min _ _, isGreatest_foldl_max _ _⟩

theorem extent_eq_some_iff : extent poly axis = some (lo, hi) ↔
    IsLeast (shadow poly axis) lo ∧ IsGreatest (shadow poly axis) hi := by
  rcases eq_or_ne poly [] with rfl | hne
  · simp [extent, shadow, IsLeast]
  obtain ⟨lo', hi', hextent, hleast, hgreatest⟩ := exists_extent hne axis
  rw [hextent]
  constructor
  · intro h
    cases h
    exact ⟨hleast, hgreatest⟩
  · rintro ⟨hlo, hhi⟩
    rw [hleast.unique hlo, hgreatest.unique hhi]

theorem extent_neg (h : extent poly axis = some (lo, hi)) :
    extent poly (-axis) = some (-hi, -lo) := by
  obtain ⟨⟨⟨p, hp, hlo⟩, hle⟩, ⟨q, hq, hhi⟩, hge⟩ := extent_eq_some_iff.mp h
  refine extent_eq_some_iff.mpr ⟨⟨⟨q, hq, by rw [Vec2.dot_neg, hhi]⟩, ?_⟩,
    ⟨p, hp, by rw [Vec2.dot_neg, hlo]⟩, ?_⟩
  · rintro _ ⟨v, hv, rfl⟩
    rw [Vec2.dot_neg]
    exact neg_le_neg (hge ⟨v, hv, rfl⟩)
  · rintro _ ⟨v, hv, rfl⟩
    rw [Vec2.dot_neg]
    exact neg_le_neg (hle ⟨v, hv, rfl⟩)

/-- The polygon moved by a displacement. -/
def translate {α : Type} [Scalar α] (poly : List (Vec2 α)) (t : Vec2 α) : List (Vec2 α) :=
  poly.map (· + t)

theorem extent_translate (h : extent poly axis = some (lo, hi)) (t : Vec2 ℝ) :
    extent (translate poly t) axis = some (lo + t.dot axis, hi + t.dot axis) := by
  obtain ⟨⟨⟨p, hp, hlo⟩, hle⟩, ⟨q, hq, hhi⟩, hge⟩ := extent_eq_some_iff.mp h
  have hmem : ∀ v ∈ poly, v + t ∈ translate poly t := fun v hv => List.mem_map_of_mem hv
  refine extent_eq_some_iff.mpr ⟨⟨⟨p + t, hmem p hp, by rw [Vec2.add_dot, hlo]⟩, ?_⟩,
    ⟨q + t, hmem q hq, by rw [Vec2.add_dot, hhi]⟩, ?_⟩
  · rintro _ ⟨_, hmoved, rfl⟩
    obtain ⟨v, hv, rfl⟩ := List.mem_map.mp hmoved
    rw [Vec2.add_dot]
    exact add_le_add_left (hle ⟨v, hv, rfl⟩) _
  · rintro _ ⟨_, hmoved, rfl⟩
    obtain ⟨v, hv, rfl⟩ := List.mem_map.mp hmoved
    rw [Vec2.add_dot]
    exact add_le_add_left (hge ⟨v, hv, rfl⟩) _

/-- Along the axis `b` begins no earlier than `a`, and ends no earlier. -/
def Leads (axis : Vec2 ℝ) (a b : List (Vec2 ℝ)) : Prop :=
  (∀ q ∈ b, ∃ p ∈ a, p.dot axis ≤ q.dot axis) ∧ ∀ p ∈ a, ∃ q ∈ b, p.dot axis ≤ q.dot axis

theorem leads_iff (ha : extent a axis = some (amin, amax))
    (hb : extent b axis = some (bmin, bmax)) : Leads axis a b ↔ amin ≤ bmin ∧ amax ≤ bmax := by
  obtain ⟨⟨⟨p₀, hp₀, hamin⟩, hale⟩, ⟨p₁, hp₁, hamax⟩, hage⟩ := extent_eq_some_iff.mp ha
  obtain ⟨⟨⟨q₀, hq₀, hbmin⟩, hble⟩, ⟨q₁, hq₁, hbmax⟩, hbge⟩ := extent_eq_some_iff.mp hb
  constructor
  · rintro ⟨hbegin, hend⟩
    obtain ⟨p, hp, hpq⟩ := hbegin q₀ hq₀
    obtain ⟨q, hq, hqp⟩ := hend p₁ hp₁
    rw [hbmin] at hpq
    rw [hamax] at hqp
    exact ⟨(hale ⟨p, hp, rfl⟩).trans hpq, hqp.trans (hbge ⟨q, hq, rfl⟩)⟩
  · rintro ⟨hmin, hmax⟩
    refine ⟨fun q hq => ⟨p₀, hp₀, ?_⟩, fun p hp => ⟨q₁, hq₁, ?_⟩⟩
    · rw [hamin]
      exact hmin.trans (hble ⟨q, hq, rfl⟩)
    · rw [hbmax]
      exact (hage ⟨p, hp, rfl⟩).trans hmax

theorem leads_mul {c : ℝ} (hc : 0 < c) : Leads (axis * c) a b ↔ Leads axis a b := by
  simp only [Leads, Vec2.dot_mul, mul_le_mul_iff_left₀ hc]

/-! ## Overlaps -/

theorem overlap_eq (ha : extent a axis = some (amin, amax))
    (hb : extent b axis = some (bmin, bmax)) :
    overlap a b axis =
      if min amax bmax - max amin bmin ≤ 0 then none else some (min amax bmax - max amin bmin) := by
  rw [overlap, ha, hb]
  simp

theorem overlap_eq_none_iff (ha : extent a axis = some (amin, amax))
    (hb : extent b axis = some (bmin, bmax)) :
    overlap a b axis = none ↔ min amax bmax ≤ max amin bmin := by
  rw [overlap_eq ha hb]
  split
  next h => exact iff_of_true rfl (sub_nonpos.mp h)
  next h => exact iff_of_false (by simp) fun hle => h (sub_nonpos.mpr hle)

theorem overlap_eq_some_iff {d : ℝ} : overlap a b axis = some d ↔
    ∃ amin amax bmin bmax, extent a axis = some (amin, amax) ∧ extent b axis = some (bmin, bmax) ∧
      0 < d ∧ min amax bmax - max amin bmin = d := by
  constructor
  · intro h
    cases ha : extent a axis with
    | none => simp [overlap, ha] at h
    | some ea =>
      cases hb : extent b axis with
      | none => simp [overlap, ha, hb] at h
      | some eb =>
        rw [overlap_eq ha hb, Option.ite_none_left_eq_some] at h
        obtain ⟨hpos, hd⟩ := h
        cases hd
        exact ⟨ea.1, ea.2, eb.1, eb.2, rfl, rfl, not_le.mp hpos, rfl⟩
  · rintro ⟨amin, amax, bmin, bmax, ha, hb, hpos, rfl⟩
    rw [overlap_eq ha hb, if_neg (not_le.mpr hpos)]

/-- Overlaps do not depend on the sense of the axis. -/
theorem overlap_neg (a b : List (Vec2 ℝ)) (axis : Vec2 ℝ) :
    overlap a b (-axis) = overlap a b axis := by
  rcases eq_or_ne a [] with rfl | hane
  · rfl
  rcases eq_or_ne b [] with rfl | hbne
  · simp [overlap, extent]
  obtain ⟨amin, amax, ha, _⟩ := exists_extent hane axis
  obtain ⟨bmin, bmax, hb, _⟩ := exists_extent hbne axis
  have hdepth : min (-amin) (-bmin) - max (-amax) (-bmax) = min amax bmax - max amin bmin := by
    rw [min_neg_neg, max_neg_neg]
    ring
  rw [overlap_eq ha hb, overlap_eq (extent_neg ha) (extent_neg hb), hdepth]

theorem leastOverlap_eq_some {axes : List (Vec2 ℝ)} {d : ℝ}
    (h : leastOverlap a b axes = some (d, axis)) :
    axis ∈ axes ∧ overlap a b axis = some d ∧
      ∀ n ∈ axes, ∃ d', overlap a b n = some d' ∧ d ≤ d' := by
  obtain ⟨overlaps, hoverlaps, hbest⟩ := Option.bind_eq_some_iff.mp h
  rw [mapM_eq_some_iff] at hoverlaps
  have hof : ∀ y ∈ overlaps, y.2 ∈ axes ∧ overlap a b y.2 = some y.1 := by
    intro y hy
    have hmem : some y ∈ axes.map fun n => (overlap a b n).map (·, n) :=
      hoverlaps ▸ List.mem_map_of_mem hy
    obtain ⟨n, hn, hdepth⟩ := List.mem_map.mp hmem
    obtain ⟨d', hd', rfl⟩ := Option.map_eq_some_iff.mp hdepth
    exact ⟨hn, hd'⟩
  have hto : ∀ n ∈ axes, ∃ y ∈ overlaps, y.2 = n := by
    intro n hn
    have hmem : (overlap a b n).map (·, n) ∈ overlaps.map some :=
      hoverlaps ▸ List.mem_map_of_mem hn
    obtain ⟨y, hy, hdepth⟩ := List.mem_map.mp hmem
    obtain ⟨d', _, rfl⟩ := Option.map_eq_some_iff.mp hdepth.symm
    exact ⟨_, hy, rfl⟩
  cases overlaps with
  | nil => simp at hbest
  | cons x xs =>
    have hpick : ∀ y z : ℝ × Vec2 ℝ, ((if z.1 < y.1 then z else y) = y ∨
        (if z.1 < y.1 then z else y) = z) ∧ (if z.1 < y.1 then z else y).1 ≤ y.1 ∧
        (if z.1 < y.1 then z else y).1 ≤ z.1 := by
      intro y z
      split
      next hlt => exact ⟨.inr rfl, hlt.le, le_rfl⟩
      next hge => exact ⟨.inl rfl, le_rfl, not_lt.mp hge⟩
    obtain ⟨hmem, hle⟩ := foldl_pick (r := fun y z : ℝ × Vec2 ℝ => y.1 ≤ z.1) (fun _ => le_rfl)
      le_trans hpick x xs
    rw [Option.some.inj hbest] at hmem hle
    refine ⟨(hof _ hmem).1, (hof _ hmem).2, fun n hn => ?_⟩
    obtain ⟨y, hy, rfl⟩ := hto n hn
    exact ⟨y.1, (hof y hy).2, hle y hy⟩

theorem edgeNormal_dot_self {e : Vec2 ℝ} (h : 0 < e.norm) :
    (edgeNormal e).dot (edgeNormal e) = 1 := by
  have hsq : e.norm * e.norm = e.x * e.x + e.y * e.y := e.norm_mul_self
  simp only [edgeNormal, Vec2.dot, Vec2.div_x, Vec2.div_y]
  field_simp
  nlinarith

theorem dot_self_of_mem_edgeNormals (h : n ∈ edgeNormals poly) : n.dot n = 1 := by
  obtain ⟨⟨p, e⟩, _, he⟩ := List.mem_filterMap.mp h
  rw [Option.ite_none_right_eq_some, Scalar.ofScientific_real] at he
  obtain ⟨hlong, hn⟩ := he
  cases hn
  exact edgeNormal_dot_self (lt_trans (by norm_num) hlong)

/-! ## The separating translation -/

/-- The translation has the length of the least overlap, and a unit direction in which the overlap
is that long. -/
theorem separatingTranslation_eq_some (h : separatingTranslation a b = some t) :
    ∃ d u, u * d = t ∧ 0 < d ∧ u.dot u = 1 ∧ overlap a b u = some d ∧
      (∃ n ∈ edgeNormals a ++ edgeNormals b, u = n ∨ u = -n) ∧
      ∀ n ∈ edgeNormals a ++ edgeNormals b, ∃ d', overlap a b n = some d' ∧ d ≤ d' := by
  obtain ⟨⟨d, axis⟩, hleast, ht⟩ := Option.bind_eq_some_iff.mp h
  cases ht
  obtain ⟨hmem, hoverlap, hall⟩ := leastOverlap_eq_some hleast
  have hunit : axis.dot axis = 1 :=
    (List.mem_append.mp hmem).elim dot_self_of_mem_edgeNormals dot_self_of_mem_edgeNormals
  obtain ⟨_, _, _, _, _, _, hpos, _⟩ := overlap_eq_some_iff.mp hoverlap
  refine ⟨d, _, rfl, hpos, ?_, ?_, ⟨axis, hmem, ?_⟩, hall⟩
  · split
    · exact Vec2.neg_dot_self hunit
    · exact hunit
  · split
    · rwa [overlap_neg]
    · exact hoverlap
  · split
    · exact .inr rfl
    · exact .inl rfl

/-- Going as far as the overlap along a unit axis, one polygon leaves the other on that axis if it
was ahead of it, and otherwise not. -/
theorem overlap_translate_eq_none_iff {u : Vec2 ℝ} {d : ℝ} (hu : u.dot u = 1)
    (h : overlap a b u = some d) : overlap a (translate b (u * d)) u = none ↔ Leads u a b := by
  obtain ⟨amin, amax, bmin, bmax, ha, hb, hpos, hd⟩ := overlap_eq_some_iff.mp h
  have hshift : (u * d).dot u = d := by rw [Vec2.mul_dot, hu, mul_one]
  have hb' := extent_translate hb (u * d)
  rw [hshift] at hb'
  rw [leads_iff ha hb, overlap_eq_none_iff ha hb']
  have hamax := min_le_left amax bmax
  have hbmax := min_le_right amax bmax
  have hamin := le_max_left amin bmin
  have hbmin := le_max_right amin bmin
  constructor
  · intro hnone
    -- Only the end of `a` can have come to lie before the beginning of `b`.
    rcases min_le_iff.mp hnone with h | h <;> rcases le_max_iff.mp h with h | h
    · linarith
    · exact ⟨by linarith, by linarith⟩
    · linarith
    · linarith
  · rintro ⟨hmin, hmax⟩
    rw [min_eq_left hmax, max_eq_right hmin] at hd
    exact min_le_of_left_le (le_max_of_le_right (by linarith))

theorem separates_iff_leads (h : separatingTranslation a b = some t) :
    (∃ n ∈ edgeNormals a ++ edgeNormals b, overlap a (translate b t) n = none) ↔ Leads t a b := by
  obtain ⟨d, u, rfl, hpos, hu, hoverlap, ⟨axis, haxis, hor⟩, hall⟩ :=
    separatingTranslation_eq_some h
  rw [leads_mul hpos, ← overlap_translate_eq_none_iff hu hoverlap]
  constructor
  · rintro ⟨n, hn, hnone⟩
    have hnunit : n.dot n = 1 :=
      (List.mem_append.mp hn).elim dot_self_of_mem_edgeNormals dot_self_of_mem_edgeNormals
    obtain ⟨d', hd', hle⟩ := hall n hn
    obtain ⟨amin, amax, bmin, bmax, ha, hb, _, hdepth⟩ := overlap_eq_some_iff.mp hd'
    have hnone' := (overlap_eq_none_iff ha (extent_translate hb (u * d))).mp hnone
    rw [Vec2.mul_dot] at hnone'
    have hamax := min_le_left amax bmax
    have hbmax := min_le_right amax bmax
    have hamin := le_max_left amin bmin
    have hbmin := le_max_right amin bmin
    -- No axis overlaps less than `u`, and along another one the way is shorter than along `u`.
    rcases min_le_iff.mp hnone' with h | h <;> rcases le_max_iff.mp h with h | h
    · linarith
    · have hun : u = n := Vec2.eq_of_one_le_dot hu hnunit (by nlinarith)
      rw [hun] at hnone ⊢
      exact hnone
    · have hun : u = -n := Vec2.eq_neg_of_dot_le_neg_one hu hnunit (by nlinarith)
      rw [hun] at hnone ⊢
      rwa [overlap_neg]
    · linarith
  · intro hnone
    refine ⟨axis, haxis, ?_⟩
    rcases hor with rfl | rfl
    · exact hnone
    · rwa [overlap_neg] at hnone

/-! ## The goal of two polygons -/

/-- The positions after every node took its move in full. -/
def applied {α : Type} [Scalar α] (ps : List (Vec3 α)) (r : Response α) : List (Vec3 α) :=
  ps.zipWith (fun p move => p + move.getD 0) r

/-- Overlaps do not depend on where the two polygons are together. -/
theorem overlap_translate_translate (a b : List (Vec2 ℝ)) (s t axis : Vec2 ℝ) :
    overlap (translate a s) (translate b (t + s)) axis = overlap a (translate b t) axis := by
  rcases eq_or_ne a [] with rfl | hane
  · rfl
  rcases eq_or_ne b [] with rfl | hbne
  · simp [overlap, extent, translate]
  obtain ⟨amin, amax, ha, _⟩ := exists_extent hane axis
  obtain ⟨bmin, bmax, hb, _⟩ := exists_extent hbne axis
  rw [overlap_eq (extent_translate ha s) (extent_translate hb (t + s)),
    overlap_eq ha (extent_translate hb t), Vec2.add_dot, ← add_assoc, ← add_assoc,
    min_add_add_right, max_add_add_right, add_sub_add_right_eq_sub]

theorem pushApart_eq (h : separatingTranslation a b = some t) :
    pushApart a b = some ⟨0.5 * t.x, 0.5 * t.y, 0⟩ := by
  rw [pushApart, h]
  rfl

theorem respond_two {pa pb : List (Vec3 ℝ)} {push : Vec3 ℝ}
    (h : pushApart (pa.map Vec2.ofVec3) (pb.map Vec2.ofVec3) = some push) (n : ℕ) :
    (Aim.convexPolygonCollision [pa.length, pb.length]).respond n (pa ++ pb) =
      List.replicate pa.length (some (-push)) ++ List.replicate pb.length (some push) := by
  have haveraged : ∀ v : Vec3 ℝ, Response.averaged [v] = some v := by
    intro v
    simp [Response.averaged, Vec3.sum, Vec3.div_real]
  have hcut : cut [pa.length, pb.length] ((pa ++ pb).map Vec2.ofVec3) =
      [pa.map Vec2.ofVec3, pb.map Vec2.ofVec3] := by
    simp [cut]
  rw [Aim.respond, collisionResponse, hcut, separate]
  simp [mutualCorrections, h, haveraged, List.map_const']

theorem applied_replicate {α : Type} [Scalar α] (ps : List (Vec3 α)) (move : Vec3 α) :
    applied ps (List.replicate ps.length (some move)) = ps.map (· + move) := by
  induction ps with
  | nil => rfl
  | cons p ps ih =>
    rw [List.length_cons, List.replicate_succ, applied, List.zipWith_cons_cons, List.map_cons, ← ih]
    rfl

theorem map_ofVec3_add (ps : List (Vec3 ℝ)) (v : Vec3 ℝ) :
    (ps.map (· + v)).map Vec2.ofVec3 = translate (ps.map Vec2.ofVec3) (Vec2.ofVec3 v) := by
  rw [translate, List.map_map, List.map_map]
  rfl

/-! ## Squares -/

/-- The counter-clockwise square with the given lower left corner and side. -/
noncomputable def square (x y side : ℝ) : List (Vec2 ℝ) :=
  [⟨x, y⟩, ⟨x + side, y⟩, ⟨x + side, y + side⟩, ⟨x, y + side⟩]

theorem edges_square (x y side : ℝ) :
    edges (square x y side) =
      [(⟨x, y⟩, ⟨side, 0⟩), (⟨x + side, y⟩, ⟨0, side⟩), (⟨x + side, y + side⟩, ⟨-side, 0⟩),
        (⟨x, y + side⟩, ⟨0, -side⟩)] := by
  simp [edges, square, Vec2.ext_iff]

theorem edgeNormals_square (x y : ℝ) {side : ℝ} (h : 1 ≤ side) :
    edgeNormals (square x y side) = [-⟨0, 1⟩, ⟨1, 0⟩, ⟨0, 1⟩, -⟨1, 0⟩] := by
  have hlong : (1e-12 : ℝ) < side := by
    rw [Scalar.ofScientific_real]
    norm_num
    linarith
  have hside : √(side * side) = side := Real.sqrt_mul_self (by linarith)
  have hne : side ≠ 0 := by linarith
  have hright : (⟨side, 0⟩ : Vec2 ℝ).norm = side := by simp [Vec2.norm, Vec2.dot, hside]
  have hup : (⟨0, side⟩ : Vec2 ℝ).norm = side := by simp [Vec2.norm, Vec2.dot, hside]
  have hleft : (⟨-side, 0⟩ : Vec2 ℝ).norm = side := by simp [Vec2.norm, Vec2.dot, hside]
  have hdown : (⟨0, -side⟩ : Vec2 ℝ).norm = side := by simp [Vec2.norm, Vec2.dot, hside]
  rw [edgeNormals, edges_square]
  simp [-Scalar.ofScientific_real, List.filterMap_cons, hright, hup, hleft, hdown, hlong,
    edgeNormal, Vec2.ext_iff, hne]

theorem extent_square_x (x y : ℝ) {s : ℝ} (h : 0 ≤ s) :
    extent (square x y s) ⟨1, 0⟩ = some (x, x + s) := by
  simp [extent_eq_some_iff, shadow, square, IsLeast, IsGreatest, lowerBounds, upperBounds,
    Vec2.dot]
  grind

theorem extent_square_y (x y : ℝ) {s : ℝ} (h : 0 ≤ s) :
    extent (square x y s) ⟨0, 1⟩ = some (y, y + s) := by
  simp [extent_eq_some_iff, shadow, square, IsLeast, IsGreatest, lowerBounds, upperBounds,
    Vec2.dot]
  grind

theorem centroid_square (x y side : ℝ) :
    Vec2.centroid (square x y side) = ⟨x + side / 2, y + side / 2⟩ := by
  simp [Vec2.centroid, Vec2.sum, square, Vec2.ext_iff]
  constructor <;> ring

theorem leastOverlap_square {x y x' y' s s' dx dy : ℝ} (hs : 1 ≤ s) (hs' : 1 ≤ s')
    (hx : overlap (square x y s) (square x' y' s') ⟨1, 0⟩ = some dx)
    (hy : overlap (square x y s) (square x' y' s') ⟨0, 1⟩ = some dy) :
    leastOverlap (square x y s) (square x' y' s')
      (edgeNormals (square x y s) ++ edgeNormals (square x' y' s')) =
        some (if dx < dy then (dx, ⟨1, 0⟩) else (dy, -⟨0, 1⟩)) := by
  rw [edgeNormals_square _ _ hs, edgeNormals_square _ _ hs', leastOverlap]
  by_cases h : dx < dy
  · simp [hx, hy, overlap_neg, h, h.le.not_gt]
  · simp [hx, hy, overlap_neg, h]

/-! ## Coming apart -/

/-- The translation of `b` takes it out of `a`, and so do the moves of the goal that holds the two
polygons, exactly when `b` leads in its direction. -/
theorem separatingTranslation_separates_iff (h : separatingTranslation a b = some t) :
    ((∃ n ∈ edgeNormals a ++ edgeNormals b, overlap a (translate b t) n = none) ↔ Leads t a b) ∧
    ∀ (pa pb : List (Vec3 ℝ)) (count : ℕ), pa.map Vec2.ofVec3 = a → pb.map Vec2.ofVec3 = b →
      let after := applied (pa ++ pb)
        ((Aim.convexPolygonCollision [pa.length, pb.length]).respond count (pa ++ pb))
      (∃ n ∈ edgeNormals a ++ edgeNormals b,
        overlap ((after.take pa.length).map Vec2.ofVec3)
          ((after.drop pa.length).map Vec2.ofVec3) n = none) ↔ Leads t a b := by
  refine ⟨separates_iff_leads h, ?_⟩
  rintro pa pb count rfl rfl after
  have hafter : after = pa.map (· + -⟨0.5 * t.x, 0.5 * t.y, 0⟩) ++
      pb.map (· + ⟨0.5 * t.x, 0.5 * t.y, 0⟩) := by
    simp only [after, respond_two (pushApart_eq h), applied]
    rw [List.zipWith_append (by simp)]
    exact congrArg₂ (· ++ ·) (applied_replicate ..) (applied_replicate ..)
  rw [← separates_iff_leads h]
  refine exists_congr fun n => and_congr_right fun _ => ?_
  have hsum : t + Vec2.ofVec3 (-⟨0.5 * t.x, 0.5 * t.y, 0⟩) =
      Vec2.ofVec3 (⟨0.5 * t.x, 0.5 * t.y, 0⟩ : Vec3 ℝ) := by
    ext
    all_goals
      simp only [Vec2.ofVec3, Vec2.add_x, Vec2.add_y, Vec3.neg_x, Vec3.neg_y,
        Scalar.ofScientific_real]
      ring
  rw [hafter, List.take_left' (List.length_map _), List.drop_left' (List.length_map _),
    map_ofVec3_add, map_ofVec3_add, ← hsum, overlap_translate_translate]

/-- A square that reaches over the right side of another one comes apart from it. -/
theorem separates_staggered :
    separatingTranslation (square 0 0 4) (square 3 1 2) = some ⟨1, 0⟩ ∧
      ∃ n ∈ edgeNormals (square 0 0 4) ++ edgeNormals (square 3 1 2),
        overlap (square 0 0 4) (translate (square 3 1 2) ⟨1, 0⟩) n = none := by
  have hax := extent_square_x 0 0 (s := 4) (by norm_num)
  have hbx := extent_square_x 3 1 (s := 2) (by norm_num)
  have hx : overlap (square 0 0 4) (square 3 1 2) ⟨1, 0⟩ = some 1 := by
    rw [overlap_eq hax hbx]
    norm_num
  have hy : overlap (square 0 0 4) (square 3 1 2) ⟨0, 1⟩ = some 2 := by
    rw [overlap_eq (extent_square_y 0 0 (by norm_num)) (extent_square_y 3 1 (by norm_num))]
    norm_num
  have htranslation : separatingTranslation (square 0 0 4) (square 3 1 2) = some ⟨1, 0⟩ := by
    rw [separatingTranslation, leastOverlap_square (by norm_num) (by norm_num) hx hy]
    norm_num [centroid_square, Vec2.dot, Vec2.ext_iff]
  have hleads : Leads ⟨1, 0⟩ (square 0 0 4) (square 3 1 2) :=
    (leads_iff hax hbx).mpr (by norm_num)
  exact ⟨htranslation, (separatingTranslation_separates_iff htranslation).1.mpr hleads⟩

/-- A square within another one is moved, but overlaps with it as much as before along every
normal. -/
theorem stays_caught_contained :
    separatingTranslation (square 0 0 4) (square (1 / 2) (3 / 2) 1) = some (-⟨0, 1⟩) ∧
      ∀ n ∈ edgeNormals (square 0 0 4) ++ edgeNormals (square (1 / 2) (3 / 2) 1),
        overlap (square 0 0 4) (translate (square (1 / 2) (3 / 2) 1) (-⟨0, 1⟩)) n ≠ none := by
  have hay := extent_square_y 0 0 (s := 4) (by norm_num)
  have hby := extent_square_y (1 / 2) (3 / 2) (s := 1) (by norm_num)
  have hx : overlap (square 0 0 4) (square (1 / 2) (3 / 2) 1) ⟨1, 0⟩ = some 1 := by
    rw [overlap_eq (extent_square_x 0 0 (by norm_num)) (extent_square_x _ _ (by norm_num))]
    norm_num
  have hy : overlap (square 0 0 4) (square (1 / 2) (3 / 2) 1) ⟨0, 1⟩ = some 1 := by
    rw [overlap_eq hay hby]
    norm_num
  have htranslation :
      separatingTranslation (square 0 0 4) (square (1 / 2) (3 / 2) 1) = some (-⟨0, 1⟩) := by
    rw [separatingTranslation, leastOverlap_square (by norm_num) (by norm_num) hx hy]
    norm_num [centroid_square, Vec2.dot, Vec2.ext_iff]
  have hleads : ¬Leads (-⟨0, 1⟩) (square 0 0 4) (square (1 / 2) (3 / 2) 1) := by
    rw [leads_iff (extent_neg hay) (extent_neg hby)]
    norm_num
  refine ⟨htranslation, fun n hn hnone => hleads ?_⟩
  exact (separates_iff_leads htranslation).mp ⟨n, hn, hnone⟩

end Relaxation.Polygon
