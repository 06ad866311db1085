import Mathlib.Analysis.Convex.Radon
import Mathlib.Data.Finset.Sum
import Mathlib.Order.CompletePartialOrder
import Relaxation.Proofs.Geometry.ConvexPolygon
import Relaxation.Proofs.Goal.Polygon

/-!
# The separating axis test

Over the reals two convex polygons have no place in common in their interiors exactly when an edge
normal of one of them keeps them apart, and then there is no translation. If there is one it goes along
the normal of least overlap, by that overlap (`Polygon.separatingTranslation_decides`). That enough axes
are tried is a matter of Helly's theorem: of three edges at least two belong to one polygon, and that the
other one reaches over the third is what the overlap along its normal says.
-/

namespace Relaxation.Polygon

variable {a b : List (Vec2 ℝ)} {axis t : Vec2 ℝ} {σ τ : ℝ} {x : ℝ × ℝ}

/-! ## Overlaps of shadows -/

/-- How far the shadows of two polygons overlap along an axis, negative when there is a gap. -/
noncomputable def depth (a b : List (Vec2 ℝ)) (axis : Vec2 ℝ) : ℝ :=
  min (sSup (shadow a axis)) (sSup (shadow b axis)) -
    max (sInf (shadow a axis)) (sInf (shadow b axis))

theorem depth_comm (a b : List (Vec2 ℝ)) (axis : Vec2 ℝ) : depth a b axis = depth b a axis := by
  rw [depth, depth, min_comm, max_comm]

theorem depth_eq {amin amax bmin bmax : ℝ} (ha : extent a axis = some (amin, amax))
    (hb : extent b axis = some (bmin, bmax)) : depth a b axis = min amax bmax - max amin bmin := by
  obtain ⟨halo, hahi⟩ := extent_eq_some_iff.mp ha
  obtain ⟨hblo, hbhi⟩ := extent_eq_some_iff.mp hb
  rw [depth, halo.csInf_eq, hahi.csSup_eq, hblo.csInf_eq, hbhi.csSup_eq]

theorem overlap_eq_depth (ha : a ≠ []) (hb : b ≠ []) (axis : Vec2 ℝ) :
    overlap a b axis = if depth a b axis ≤ 0 then none else some (depth a b axis) := by
  obtain ⟨amin, amax, hextent, _⟩ := exists_extent ha axis
  obtain ⟨bmin, bmax, hextent', _⟩ := exists_extent hb axis
  rw [overlap_eq hextent hextent', depth_eq hextent hextent']

/-- Where one polygon ends before the other begins there is no overlap. -/
theorem depth_nonpos (ha : a ≠ []) (hb : b ≠ [])
    (h : ∀ p ∈ a, ∀ q ∈ b, p.dot axis ≤ q.dot axis) : depth a b axis ≤ 0 := by
  obtain ⟨amin, amax, hextent, _, ⟨p, hp, rfl⟩, _⟩ := exists_extent ha axis
  obtain ⟨bmin, bmax, hextent', ⟨⟨q, hq, rfl⟩, _⟩, _⟩ := exists_extent hb axis
  rw [depth_eq hextent hextent', sub_nonpos]
  exact (min_le_left _ _).trans ((h p hp q hq).trans (le_max_right _ _))

/-- Regions with an interior place in common overlap along every axis. -/
theorem depth_pos (haxis : 0 < axis.dot axis) (ha : x ∈ interior (region a))
    (hb : x ∈ interior (region b)) : 0 < depth a b axis := by
  have hwithin : ∀ {poly : List (Vec2 ℝ)}, x ∈ interior (region poly) →
      ∃ lo hi, extent poly axis = some (lo, hi) ∧ lo < coord axis x ∧ coord axis x < hi := by
    intro poly hx
    obtain ⟨p, hp, hlt⟩ := exists_dot_lt haxis hx
    have hneg : 0 < (-axis).dot (-axis) := by simpa [Vec2.dot] using haxis
    obtain ⟨q, hq, hgt⟩ := exists_dot_lt hneg hx
    obtain ⟨lo, hi, hextent, hlo, hhi⟩ := exists_extent (List.ne_nil_of_mem hp) axis
    have hcoord : coord (-axis) x = -coord axis x := by
      simp only [coord, Vec2.neg_x, Vec2.neg_y]
      ring
    rw [Vec2.dot_neg, hcoord, neg_lt_neg_iff] at hgt
    exact ⟨lo, hi, hextent, (hlo.2 ⟨p, hp, rfl⟩).trans_lt hlt, hgt.trans_le (hhi.2 ⟨q, hq, rfl⟩)⟩
  obtain ⟨amin, amax, hextent, hamin, hamax⟩ := hwithin ha
  obtain ⟨bmin, bmax, hextent', hbmin, hbmax⟩ := hwithin hb
  rw [depth_eq hextent hextent', sub_pos]
  exact (max_lt hamin hbmin).trans (lt_min hamax hbmax)

/-! ## Enough axes -/

theorem dot_edgeNormal (p e : Vec2 ℝ) : p.dot (edgeNormal e) = -(p.dot (leftward e) / e.norm) := by
  simp only [edgeNormal, leftward, Vec2.dot, Vec2.div_x, Vec2.div_y]
  ring

/-- A polygon that overlaps with another one along the normal of an edge has a vertex inside of that
edge. -/
theorem GoesRound.exists_vertex_mem_halfPlane (hb : GoesRound τ b) (ha : a ≠ [])
    {edge : Vec2 ℝ × Vec2 ℝ} (hedge : edge ∈ edges b) (hdepth : 0 < depth a b (edgeNormal edge.2)) :
    ∃ p ∈ a, point p ∈ halfPlane τ edge := by
  by_contra! hout
  have hnorm : 0 < edge.2.norm := Real.sqrt_pos.mpr (hb.pos edge hedge)
  have hbehind : ∀ p ∈ a, ∀ q ∈ b,
      τ * (p.dot (leftward edge.2) / edge.2.norm) ≤ τ * (q.dot (leftward edge.2) / edge.2.norm) := by
    intro p hp q hq
    have hpq := (not_lt.mp (hout p hp)).trans (hb.nonneg edge hedge q hq)
    simp only [mul_side_eq_coord, coord_point, Vec2.dot_mul, sub_le_sub_iff_right] at hpq
    rw [← mul_div_assoc, ← mul_div_assoc, mul_comm τ, mul_comm τ]
    exact div_le_div_of_nonneg_right hpq hnorm.le
  -- The normal points out of a polygon that is listed counter-clockwise, and into any other.
  rcases mul_self_eq_one_iff.mp hb.sign with rfl | rfl
  · refine hdepth.not_ge (depth_comm a b _ ▸ depth_nonpos hb.ne_nil ha fun q hq p hp => ?_)
    have hpq := hbehind p hp q hq
    rw [dot_edgeNormal, dot_edgeNormal]
    linarith
  · refine hdepth.not_ge (depth_nonpos ha hb.ne_nil fun p hp q hq => ?_)
    have hpq := hbehind p hp q hq
    rw [dot_edgeNormal, dot_edgeNormal]
    linarith

/-- From a vertex inside of an edge it is not far to the interior. -/
theorem GoesRound.exists_interior_mem_halfPlane (ha : GoesRound σ a) (hb : GoesRound τ b)
    {edge : Vec2 ℝ × Vec2 ℝ} (hedge : edge ∈ edges b) (hdepth : 0 < depth a b (edgeNormal edge.2)) :
    ∃ x ∈ interior (region a), x ∈ halfPlane τ edge := by
  obtain ⟨p, hp, hinside⟩ := hb.exists_vertex_mem_halfPlane ha.ne_nil hedge hdepth
  have hclosure : point p ∈ closure (interior (region a)) := by
    rw [(convex_region a).closure_interior_eq_closure_of_nonempty_interior
      ha.interior_region_nonempty]
    exact subset_closure (point_mem_region hp)
  obtain ⟨x, hx, hxa⟩ := mem_closure_iff.mp hclosure _ (isOpen_halfPlane τ edge) hinside
  exact ⟨x, hxa, hx⟩

theorem GoesRound.exists_interior_of_card_le_one (ha : GoesRound σ a) (hb : GoesRound τ b)
    (hdepth : ∀ edge ∈ edges b, 0 < depth a b (edgeNormal edge.2))
    {few : Finset (Vec2 ℝ × Vec2 ℝ)} (hfew : ∀ edge ∈ few, edge ∈ edges b)
    (hcard : few.card ≤ 1) :
    ∃ x ∈ interior (region a), ∀ edge ∈ few, x ∈ halfPlane τ edge := by
  rcases few.eq_empty_or_nonempty with rfl | hne
  · obtain ⟨x, hx⟩ := ha.interior_region_nonempty
    exact ⟨x, hx, by simp⟩
  · obtain ⟨edge, rfl⟩ := Finset.card_eq_one.mp (le_antisymm hcard hne.card_pos)
    have hedge := hfew edge (Finset.mem_singleton_self edge)
    obtain ⟨x, hx, hinside⟩ := ha.exists_interior_mem_halfPlane hb hedge (hdepth edge hedge)
    exact ⟨x, hx, by simpa using hinside⟩

/-- Three edges have a place inside of all of them, since at most one belongs to one of the two
polygons. -/
theorem GoesRound.exists_mem_halfPlanes (ha : GoesRound σ a) (hb : GoesRound τ b)
    (hdeptha : ∀ edge ∈ edges a, 0 < depth b a (edgeNormal edge.2))
    (hdepthb : ∀ edge ∈ edges b, 0 < depth a b (edgeNormal edge.2))
    {few few' : Finset (Vec2 ℝ × Vec2 ℝ)} (hfew : ∀ edge ∈ few, edge ∈ edges a)
    (hfew' : ∀ edge ∈ few', edge ∈ edges b) (hcard : few.card + few'.card ≤ 3) :
    ∃ x, (∀ edge ∈ few, x ∈ halfPlane σ edge) ∧ ∀ edge ∈ few', x ∈ halfPlane τ edge := by
  obtain hone | hone : few'.card ≤ 1 ∨ few.card ≤ 1 := by omega
  · obtain ⟨x, hx, hinside⟩ := ha.exists_interior_of_card_le_one hb hdepthb hfew' hone
    rw [ha.mem_interior_region_iff] at hx
    exact ⟨x, fun edge hedge => hx edge (hfew edge hedge), hinside⟩
  · obtain ⟨x, hx, hinside⟩ := hb.exists_interior_of_card_le_one ha hdeptha hfew hone
    rw [hb.mem_interior_region_iff] at hx
    exact ⟨x, hinside, fun edge hedge => hx edge (hfew' edge hedge)⟩

/-- Polygons that overlap along all edge normals have interior places in common. -/
theorem GoesRound.exists_common (ha : GoesRound σ a) (hb : GoesRound τ b)
    (hdeptha : ∀ edge ∈ edges a, 0 < depth b a (edgeNormal edge.2))
    (hdepthb : ∀ edge ∈ edges b, 0 < depth a b (edgeNormal edge.2)) :
    ∃ x, x ∈ interior (region a) ∧ x ∈ interior (region b) := by
  classical
  let inner : (Vec2 ℝ × Vec2 ℝ) ⊕ (Vec2 ℝ × Vec2 ℝ) → Set (ℝ × ℝ) :=
    Sum.elim (halfPlane σ) (halfPlane τ)
  have hconvex : ∀ i ∈ (edges a).toFinset.disjSum (edges b).toFinset, Convex ℝ (inner i) := by
    rintro (edge | edge) _
    · exact convex_halfPlane σ edge
    · exact convex_halfPlane τ edge
  have hthree : ∀ I ⊆ (edges a).toFinset.disjSum (edges b).toFinset,
      I.card ≤ Module.finrank ℝ (ℝ × ℝ) + 1 → (⋂ i ∈ I, inner i).Nonempty := by
    intro I hI hcard
    rw [Module.finrank_prod, Module.finrank_self, ← Finset.card_toLeft_add_card_toRight] at hcard
    obtain ⟨x, hxa, hxb⟩ := ha.exists_mem_halfPlanes hb hdeptha hdepthb
      (fun edge hedge => by simpa using hI (Finset.mem_toLeft.mp hedge))
      (fun edge hedge => by simpa using hI (Finset.mem_toRight.mp hedge)) hcard
    refine ⟨x, Set.mem_iInter₂.mpr ?_⟩
    rintro (edge | edge) hedge
    · exact hxa edge (Finset.mem_toLeft.mpr hedge)
    · exact hxb edge (Finset.mem_toRight.mpr hedge)
  obtain ⟨x, hx⟩ := Convex.helly_theorem' hconvex hthree
  rw [Set.mem_iInter₂] at hx
  refine ⟨x, ha.mem_interior_region_iff.mpr fun edge hedge => ?_,
    hb.mem_interior_region_iff.mpr fun edge hedge => ?_⟩
  · exact hx (.inl edge) (by simpa using hedge)
  · exact hx (.inr edge) (by simpa using hedge)

/-! ## The decision -/

theorem edgeNormal_mem {poly : List (Vec2 ℝ)} (h : IsConvex poly) {edge : Vec2 ℝ × Vec2 ℝ}
    (hedge : edge ∈ edges poly) : edgeNormal edge.2 ∈ edgeNormals poly :=
  List.mem_filterMap.mpr ⟨edge, hedge, if_pos (h.long edge hedge)⟩

/-- There is a translation when the polygons overlap along all normals. -/
theorem separatingTranslation_ne_none (hne : edgeNormals a ++ edgeNormals b ≠ [])
    (h : ∀ n ∈ edgeNormals a ++ edgeNormals b, overlap a b n ≠ none) :
    separatingTranslation a b ≠ none := by
  have hoverlaps : ∀ n ∈ edgeNormals a ++ edgeNormals b,
      (overlap a b n).map (·, n) = some ((overlap a b n).getD 0, n) := by
    intro n hn
    obtain ⟨d, hd⟩ := Option.ne_none_iff_exists'.mp (h n hn)
    rw [hd]
    rfl
  have hall := mapM_eq_some_map hoverlaps
  obtain ⟨n, ns, hns⟩ := List.exists_cons_of_ne_nil hne
  rw [hns, List.map_cons] at hall
  simp [separatingTranslation, leastOverlap, hns, hall]

/-- The separating axis test decides whether the interiors of two convex polygons have a place in
common: there is no translation exactly when they have none. The length of a translation is the least
overlap over the edge normals of both polygons, and it is parallel to a normal with that overlap. -/
theorem separatingTranslation_decides (ha : IsConvex a) (hb : IsConvex b) :
    (separatingTranslation a b = none ↔
      Disjoint (interior (region a)) (interior (region b))) ∧
    ∀ t, separatingTranslation a b = some t →
      IsLeast {d | ∃ n ∈ edgeNormals a ++ edgeNormals b, depth a b n = d} t.norm ∧
      ∃ n ∈ edgeNormals a ++ edgeNormals b, depth a b n = t.norm ∧
        (t = n * t.norm ∨ t = -n * t.norm) := by
  obtain ⟨σ, hσ⟩ := ha.exists_goesRound
  obtain ⟨τ, hτ⟩ := hb.exists_goesRound
  have hoverlap := overlap_eq_depth hσ.ne_nil hτ.ne_nil
  have hunit : ∀ n ∈ edgeNormals a ++ edgeNormals b, n.dot n = 1 := fun n hn =>
    (List.mem_append.mp hn).elim dot_self_of_mem_edgeNormals dot_self_of_mem_edgeNormals
  refine ⟨⟨fun hnone => ?_, fun hdisjoint => ?_⟩, fun t ht => ?_⟩
  · rw [Set.disjoint_left]
    intro x hxa hxb
    refine separatingTranslation_ne_none ?_ (fun n hn => ?_) hnone
    · obtain ⟨c, hc, _⟩ := hσ.exists_side_ne_zero 0
      have hnormal := edgeNormal_mem ha (mem_edges.mpr ⟨c, hc, rfl⟩)
      exact List.ne_nil_of_mem (List.mem_append_left _ hnormal)
    · have hpos := depth_pos (hunit n hn ▸ one_pos) hxa hxb
      rw [hoverlap, if_neg hpos.not_ge]
      exact Option.some_ne_none _
  · by_contra hne
    obtain ⟨t, ht⟩ := Option.ne_none_iff_exists'.mp hne
    obtain ⟨_, _, _, _, _, _, _, hall⟩ := separatingTranslation_eq_some ht
    have hdepth : ∀ n ∈ edgeNormals a ++ edgeNormals b, 0 < depth a b n := fun n hn => by
      obtain ⟨d', hd', _⟩ := hall n hn
      rw [hoverlap, Option.ite_none_left_eq_some] at hd'
      exact not_le.mp hd'.1
    obtain ⟨x, hxa, hxb⟩ := hσ.exists_common hτ
      (fun edge hedge => depth_comm a b _ ▸
        hdepth _ (List.mem_append_left _ (edgeNormal_mem ha hedge)))
      (fun edge hedge => hdepth _ (List.mem_append_right _ (edgeNormal_mem hb hedge)))
    exact Set.disjoint_left.mp hdisjoint hxa hxb
  · obtain ⟨d, u, rfl, hpos, hu, hd, ⟨n, hn, hor⟩, hall⟩ := separatingTranslation_eq_some ht
    have hsome : ∀ {m : Vec2 ℝ} {d' : ℝ}, overlap a b m = some d' → depth a b m = d' := by
      intro m d' hm
      rw [hoverlap, Option.ite_none_left_eq_some] at hm
      exact Option.some.inj hm.2
    have hn_depth : depth a b n = d := by
      refine hsome ?_
      rcases hor with rfl | rfl
      · exact hd
      · rwa [overlap_neg] at hd
    rw [Vec2.norm_mul hu hpos.le]
    refine ⟨⟨⟨n, hn, hn_depth⟩, ?_⟩, n, hn, hn_depth, ?_⟩
    · rintro _ ⟨m, hm, rfl⟩
      obtain ⟨d', hd', hle⟩ := hall m hm
      exact (hsome hd').symm ▸ hle
    · rcases hor with rfl | rfl
      · exact .inl rfl
      · exact .inr rfl

theorem isConvex_square (x y : ℝ) {s : ℝ} (h : 1 ≤ s) : IsConvex (square x y s) where
  three_le_length := by simp [square]
  doubleArea_ne_zero := by
    have harea : doubleArea (square x y s) = 2 * (s * s) := by
      simp only [doubleArea, square, Scalar.sum_real, List.tail_cons, List.take_succ_cons,
        List.take_zero, List.cons_append, List.nil_append, List.zip_cons_cons, List.zip_nil_left,
        List.map_cons, List.map_nil, List.sum_cons, List.sum_nil]
      ring
    rw [harea]
    positivity
  long := by
    have hlong : ∀ e : Vec2 ℝ, e.dot e = s * s → 1e-12 < e.norm := by
      intro e he
      rw [Vec2.norm, he, Scalar.sqrt_real, Real.sqrt_mul_self (by linarith),
        Scalar.ofScientific_real]
      exact lt_of_lt_of_le (by norm_num) h
    rw [edges_square]
    simp only [List.forall_mem_cons]
    refine ⟨hlong _ ?_, hlong _ ?_, hlong _ ?_, hlong _ ?_, by simp⟩ <;> simp [Vec2.dot]
  oneSided := by
    have hsq : 0 ≤ s * s := by positivity
    rw [edges_square]
    left
    simp [square, side, point, hsq]

/-- A square whose side lies along that of another one shares no interior place with it. One that reaches
over that side by one does, and is moved back by as much. -/
theorem separatingTranslation_decides_squares :
    Disjoint (interior (region (square 0 0 4))) (interior (region (square 4 1 2))) ∧
      ¬Disjoint (interior (region (square 0 0 4))) (interior (region (square 3 1 2))) ∧
      IsLeast {d | ∃ n ∈ edgeNormals (square 0 0 4) ++ edgeNormals (square 3 1 2),
        depth (square 0 0 4) (square 3 1 2) n = d} 1 := by
  have hlarge : IsConvex (square 0 0 4) := isConvex_square 0 0 (by norm_num)
  have hax := extent_square_x 0 0 (s := 4) (by norm_num)
  have htouching : separatingTranslation (square 0 0 4) (square 4 1 2) = none := by
    refine Option.eq_none_iff_forall_ne_some.mpr fun t ht => ?_
    obtain ⟨_, _, _, _, _, _, _, hall⟩ := separatingTranslation_eq_some ht
    obtain ⟨d, hd, _⟩ := hall ⟨1, 0⟩ (by simp [edgeNormals_square])
    rw [overlap_eq hax (extent_square_x 4 1 (by norm_num)), if_pos (by norm_num)] at hd
    cases hd
  have hreaching : separatingTranslation (square 0 0 4) (square 3 1 2) = some ⟨1, 0⟩ := by
    have hx : overlap (square 0 0 4) (square 3 1 2) ⟨1, 0⟩ = some 1 := by
      rw [overlap_eq hax (extent_square_x 3 1 (by norm_num))]
      norm_num
    have hy : overlap (square 0 0 4) (square 3 1 2) ⟨0, 1⟩ = some 2 := by
      rw [overlap_eq (extent_square_y 0 0 (by norm_num)) (extent_square_y 3 1 (by norm_num))]
      norm_num
    rw [separatingTranslation, leastOverlap_square (by norm_num) (by norm_num) hx hy]
    norm_num [centroid_square, Vec2.dot, Vec2.ext_iff]
  have hapart := separatingTranslation_decides hlarge (isConvex_square 4 1 one_le_two)
  have hcaught := separatingTranslation_decides hlarge (isConvex_square 3 1 one_le_two)
  refine ⟨hapart.1.mp htouching, fun hdisjoint => ?_, ?_⟩
  · rw [hcaught.1.mpr hdisjoint] at hreaching
    simp at hreaching
  · have hnorm : (⟨1, 0⟩ : Vec2 ℝ).norm = 1 := by simp [Vec2.norm, Vec2.dot]
    have hleast := (hcaught.2 _ hreaching).1
    rwa [hnorm] at hleast

end Relaxation.Polygon
