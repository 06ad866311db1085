import Mathlib.Algebra.BigOperators.Group.Finset.Sigma
import Mathlib.Data.Real.Basic
import Relaxation.Proofs.Goal.Response
import Relaxation.Proofs.Solver.Lawful

/-!
# Spheres part

The corrections of two spheres are opposite, so each sphere of a goal has one correction for each place
at which another one overlaps it (`Collision.mutualCorrections_pushApart`), and the corrections
of all spheres together cancel. The goal averages the corrections of a sphere, which keeps the balance
only where there is no more than one, and counts the overlapping pairs with a threshold of its own
(`Goal.Built.parts_spheres`).
-/

namespace Relaxation

/-! ## Mutual corrections by place -/

theorem drop_range (n k : Nat) : (List.range n).drop k = List.range' k (n - k) := by
  rw [List.range_eq_range', List.drop_range', Nat.mul_one, Nat.zero_add]

theorem range_eq_append {i n : Nat} (hi : i < n) :
    List.range n = List.range i ++ i :: List.range' (i + 1) (n - (i + 1)) := by
  calc List.range n = (List.range n).take i ++ (List.range n).drop i :=
        (List.take_append_drop ..).symm
    _ = _ := by
        rw [List.take_range, min_eq_left hi.le, List.drop_eq_getElem_cons (by simpa using hi),
          List.getElem_range, drop_range]

/-- The items after a place that pass a test, counted by place. -/
theorem length_filter_drop {β : Type} (bs : List β) (b : β) (test : β → Bool) {i : Nat}
    (hi : i < bs.length) : ((bs.drop (i + 1)).filter test).length =
      ((List.range bs.length).filter fun j => i < j && test (bs.getD j b)).length := by
  have hdrop : bs.drop (i + 1) = (List.range' (i + 1) (bs.length - (i + 1))).map (bs.getD · b) :=
    List.ext_getElem (by simp) fun j hj _ => by
      have hj : i + 1 + j < bs.length := by
        rw [List.length_drop] at hj
        omega
      simp [hj]
  have hearlier : (List.range i).filter (fun j => i < j && test (bs.getD j b)) = [] :=
    List.filter_eq_nil_iff.mpr fun j hj => by simp [(List.mem_range.mp hj).not_gt]
  have hlater : ∀ j ∈ List.range' (i + 1) (bs.length - (i + 1)),
      (i < j && test (bs.getD j b)) = test (bs.getD j b) := fun j hj => by
    have hij : i < j := (List.mem_range'_1.mp hj).1
    rw [decide_eq_true hij, Bool.true_and]
  rw [hdrop, List.filter_map, List.length_map, range_eq_append hi, List.filter_append, hearlier,
    List.nil_append, List.filter_cons_of_neg (by simp), List.filter_congr hlater]
  rfl

/-- What every two items exchange cancels. -/
theorem sum_eq_zero_of_swap {n : Nat} {f : Nat → Nat → Vec3 ℝ} (h : ∀ i j, f i j = -f j i) :
    ∑ i ∈ Finset.range n, ∑ j ∈ Finset.range n, f i j = 0 := by
  have hopposite : ∑ i ∈ Finset.range n, ∑ j ∈ Finset.range n, f i j =
      -∑ i ∈ Finset.range n, ∑ j ∈ Finset.range n, f i j := by
    conv_lhs => rw [Finset.sum_comm]
    simp only [← Finset.sum_neg_distrib, ← h]
  rw [eq_neg_iff_add_eq_zero, ← two_smul ℝ] at hopposite
  exact (smul_eq_zero.mp hopposite).resolve_left two_ne_zero

/-- The correction that the item at place `i` receives from meeting the one at place `j`. -/
def receivedFrom {α β : Type} [Scalar α] (push : β → β → Option (Vec3 α)) (item : Nat → β)
    (i j : Nat) : Option (Vec3 α) :=
  if j < i then push (item j) (item i)
  else if i < j then (push (item i) (item j)).map (-·)
  else none

theorem receivedFrom_self {α β : Type} [Scalar α] (push : β → β → Option (Vec3 α)) (item : Nat → β)
    (i : Nat) : receivedFrom push item i i = none := by
  rw [receivedFrom, if_neg (lt_irrefl i), if_neg (lt_irrefl i)]

theorem mutualCorrections_map_range {α β : Type} [Scalar α] (push : β → β → Option (Vec3 α))
    (item : Nat → β) (n : Nat) :
    mutualCorrections push ((List.range n).map item) =
      (List.range n).map fun i => (List.range n).filterMap (receivedFrom push item i) := by
  refine List.ext_getElem (by simp) fun i hi _ => ?_
  have hi : i < n := by simpa using hi
  have hbefore : ∀ j ∈ List.range i, push (item j) (item i) = receivedFrom push item i j :=
    fun j hj => (if_pos (List.mem_range.mp hj)).symm
  have hafter : ∀ j ∈ List.range' (i + 1) (n - (i + 1)),
      (push (item i) (item j)).map (-·) = receivedFrom push item i j := fun j hj => by
    have hij : i < j := (List.mem_range'_1.mp hj).1
    rw [receivedFrom, if_neg hij.not_gt, if_pos hij]
  simp only [mutualCorrections, List.getElem_map, List.getElem_zipIdx, List.getElem_range,
    Nat.zero_add, ← List.map_take, ← List.map_drop, List.take_range, min_eq_left hi.le, drop_range,
    List.filterMap_map]
  conv_rhs => rw [range_eq_append hi, List.filterMap_append, List.filterMap_cons,
    receivedFrom_self]
  exact congrArg₂ _ (List.filterMap_congr hbefore) (List.filterMap_congr hafter)

namespace Collision

/-! ## Overlapping spheres -/

/-- The offset of the center at place `i` from the one at place `j`. -/
noncomputable def gap (ps : List (Vec3 ℝ)) (i j : Nat) : Vec3 ℝ := ps.getD i 0 - ps.getD j 0

/-- The spheres at two different places overlap. -/
def Overlap (radius : ℝ) (ps : List (Vec3 ℝ)) (i j : Nat) : Prop :=
  i ≠ j ∧ (gap ps i j).norm < radius + radius

noncomputable instance (radius : ℝ) (ps : List (Vec3 ℝ)) (i j : Nat) :
    Decidable (Overlap radius ps i j) :=
  inferInstanceAs (Decidable (_ ∧ _))

/-- The places of the spheres that overlap the one at place `i`. -/
noncomputable def overlapping (radius : ℝ) (ps : List (Vec3 ℝ)) (i : Nat) : List Nat :=
  (List.range ps.length).filter (Overlap radius ps i)

/-- The pairs of places, the lower one first, of spheres that overlap. -/
noncomputable def overlappingPairs (radius : ℝ) (ps : List (Vec3 ℝ)) : Finset (Nat × Nat) :=
  (Finset.range ps.length ×ˢ Finset.range ps.length).filter fun e =>
    e.1 < e.2 ∧ Overlap radius ps e.1 e.2

/-- The displacement of the sphere at place `i` away from the one at place `j` by half the overlap.
Where there is almost no offset, it is along the first axis, and backward for the lower place. -/
noncomputable def parting (radius : ℝ) (ps : List (Vec3 ℝ)) (i j : Nat) : Vec3 ℝ :=
  (if (gap ps i j).almostZero 1e-12 then if i < j then -Vec3.xAxis else Vec3.xAxis
    else (gap ps i j).normalize) * (radius - 0.5 * (gap ps i j).norm)

/-- The mean of the ways apart from the spheres that overlap the one at place `i`. -/
noncomputable def meanParting (radius : ℝ) (ps : List (Vec3 ℝ)) (i : Nat) : Vec3 ℝ :=
  Vec3.centroid ((overlapping radius ps i).map (parting radius ps i))

variable {radius : ℝ} {ps : List (Vec3 ℝ)} {i j : Nat}

theorem mem_overlapping :
    j ∈ overlapping radius ps i ↔ j < ps.length ∧ Overlap radius ps i j := by
  rw [overlapping, List.mem_filter, List.mem_range, decide_eq_true_eq]

theorem gap_swap (ps : List (Vec3 ℝ)) (i j : Nat) : gap ps j i = -gap ps i j := (neg_sub ..).symm

theorem Overlap.symm (h : Overlap radius ps i j) : Overlap radius ps j i := by
  refine ⟨h.1.symm, ?_⟩
  rw [gap_swap, Vec3.norm_neg]
  exact h.2

/-- Overlapping does not depend on which sphere is named first. -/
theorem overlap_comm : Overlap radius ps i j ↔ Overlap radius ps j i := ⟨.symm, .symm⟩

/-- The spheres of a pair part in opposite directions. -/
theorem parting_swap (h : i ≠ j) : parting radius ps j i = -parting radius ps i j := by
  unfold parting
  rw [gap_swap, Vec3.almostZero_neg, Vec3.norm_neg, Vec3.normalize_neg]
  split
  case isTrue =>
    rcases h.lt_or_gt with hlt | hgt
    · rw [if_neg hlt.not_gt, if_pos hlt, Vec3.neg_mul_real, neg_neg]
    · rw [if_pos hgt, if_neg hgt.not_gt, Vec3.neg_mul_real]
  case isFalse => rw [Vec3.neg_mul_real]

/-- The test of the squared distance against the squared diameter is that of the distance. -/
theorem pushApart_eq (hradius : 0 ≤ radius) (hij : i < j) :
    pushApart (2.0 * radius) (ps.getD i 0) (ps.getD j 0) =
      if Overlap radius ps j i then some (parting radius ps j i) else none := by
  have hdiameter : (2.0 : ℝ) * radius = radius + radius := by
    norm_num
    ring
  have hfar : (radius + radius) * (radius + radius) ≤ (gap ps j i).normSq ↔
      ¬Overlap radius ps j i := by
    rw [← Vec3.norm_mul_self, ← mul_self_le_mul_self_iff (by positivity) (Vec3.norm_nonneg _),
      Overlap, not_and, not_lt]
    exact ⟨fun h _ => h, fun h => h hij.ne'⟩
  have hhalf : 0.5 * (radius + radius - (gap ps j i).norm) = radius - 0.5 * (gap ps j i).norm := by
    ring
  change (if 2.0 * radius * (2.0 * radius) ≤ (gap ps j i).normSq then none else
    some ((if (gap ps j i).almostZero 1e-12 then Vec3.xAxis else gap ps j i / (gap ps j i).norm) *
      (0.5 * (2.0 * radius - (gap ps j i).norm)))) = _
  rw [hdiameter, hhalf, Vec3.div_norm, parting, if_neg hij.not_gt]
  by_cases h : Overlap radius ps j i
  · rw [if_pos h, if_neg (mt hfar.mp (not_not_intro h))]
  · rw [if_neg h, if_pos (hfar.mpr h)]

theorem norm_parting (radius : ℝ) (ps : List (Vec3 ℝ)) (i j : Nat) :
    (parting radius ps i j).norm = |radius - 0.5 * (gap ps i j).norm| := by
  rw [parting, Vec3.norm_mul]
  split
  case isTrue =>
    split
    · rw [Vec3.norm_neg, Vec3.norm_xAxis, one_mul]
    · rw [Vec3.norm_xAxis, one_mul]
  case isFalse h =>
    rw [Vec3.norm_normalize (Vec3.ne_zero_of_not_almostZero (by norm_num) h), one_mul]

/-- Half of what two spheres overlap is at most a radius. -/
theorem norm_parting_le (h : Overlap radius ps i j) : (parting radius ps i j).norm ≤ radius := by
  have hnonneg := (gap ps i j).norm_nonneg
  rw [norm_parting, abs_of_pos (by linarith [h.2])]
  linarith

/-- Spheres that are not almost coincident part, both together, to the distance of two radii. -/
theorem norm_gap_add_parting (hradius : 0 ≤ radius) (h : ¬(gap ps i j).almostZero 1e-12 = true) :
    (gap ps i j + parting radius ps i j * (2 : ℝ)).norm = 2 * radius := by
  have hne := Vec3.ne_zero_of_not_almostZero (by norm_num) h
  have hparted : gap ps i j + parting radius ps i j * (2 : ℝ) =
      (gap ps i j).normalize * (2 * radius) := by
    nth_rewrite 1 [← Vec3.normalize_mul_norm hne]
    rw [parting, if_neg h]
    simp only [Vec3.mul_real]
    module
  rw [hparted, Vec3.norm_mul, Vec3.norm_normalize hne, one_mul, abs_of_nonneg (by positivity)]

/-- Each sphere has one correction for each place at which another one overlaps it. -/
theorem mutualCorrections_pushApart (hradius : 0 ≤ radius) (ps : List (Vec3 ℝ)) :
    mutualCorrections (pushApart (2.0 * radius)) ps =
      (List.range ps.length).map fun i => (overlapping radius ps i).map (parting radius ps i) := by
  have hrange : (List.range ps.length).map (ps.getD · 0) = ps :=
    List.ext_getElem (by simp) fun i _ hi => by simp [hi]
  conv_lhs => rw [← hrange]
  rw [mutualCorrections_map_range]
  refine List.map_congr_left fun i _ => ?_
  rw [overlapping, ← List.filterMap_eq_map, List.filterMap_filter]
  refine List.filterMap_congr fun j _ => ?_
  rcases lt_trichotomy j i with hlt | rfl | hgt
  · rw [receivedFrom, if_pos hlt, pushApart_eq hradius hlt]
    simp only [decide_eq_true_eq, Function.comp_apply]
  · rw [receivedFrom_self]
    exact (if_neg fun h => (of_decide_eq_true h).1 rfl).symm
  · rw [receivedFrom, if_neg hgt.not_gt, if_pos hgt, pushApart_eq hradius hgt, apply_ite (Option.map _),
      Option.map_some, Option.map_none, ← parting_swap hgt.ne']
    simp only [decide_eq_true_eq, Function.comp_apply, overlap_comm (i := i)]

/-- The goal counts each pair once, from its first sphere. -/
theorem overlapCount_eq (hradius : 0 ≤ radius) (ps : List (Vec3 ℝ)) :
    overlapCount radius ps = (overlappingPairs radius ps).card := by
  set n := ps.length with hn
  have hnear : ∀ i j, (ps.getD i 0).distSq (ps.getD j 0) < 4.0 * radius * radius ↔
      (gap ps i j).norm < radius + radius := fun i j => by
    have hsq : (4.0 : ℝ) * radius * radius = (radius + radius) * (radius + radius) := by
      norm_num
      ring
    rw [hsq, mul_self_lt_mul_self_iff (Vec3.norm_nonneg _) (by positivity), Vec3.norm_mul_self]
    rfl
  have hrow : ∀ i < n, ((ps.drop (i + 1)).filter
      ((ps.getD i 0).distSq · < 4.0 * radius * radius)).length =
        ((List.range n).filter fun j => i < j ∧ Overlap radius ps i j).length := fun i hi => by
    rw [length_filter_drop ps 0 _ hi]
    refine congrArg List.length (List.filter_congr fun j _ => ?_)
    rw [← Bool.decide_and, decide_eq_decide, hnear]
    exact and_congr_right fun hij => ⟨fun h => ⟨hij.ne, h⟩, And.right⟩
  have hplaces : ps.zipIdx = (List.range n).map fun i => (ps.getD i 0, i) :=
    List.ext_getElem (by simp [hn]) fun i hi _ => by
      have hi : i < ps.length := by simpa using hi
      simp [hi]
  calc overlapCount radius ps
      = ((List.range n).map fun i =>
          ((List.range n).filter fun j => i < j ∧ Overlap radius ps i j).length).sum := by
        rw [overlapCount, List.length_flatMap, hplaces, List.map_map]
        exact congrArg List.sum (List.map_congr_left fun i hi => hrow i (List.mem_range.mp hi))
    _ = ∑ i ∈ Finset.range n,
          ((Finset.range n).filter fun j => i < j ∧ Overlap radius ps i j).card := rfl
    _ = (overlappingPairs radius ps).card := by
        simp only [overlappingPairs, Finset.card_filter, Finset.sum_product, hn]

theorem norm_meanParting_le (hradius : 0 ≤ radius) (ps : List (Vec3 ℝ)) (i : Nat) :
    (meanParting radius ps i).norm ≤ radius :=
  Vec3.norm_centroid_le hradius
    (List.forall_mem_map.mpr fun _ hj => norm_parting_le (mem_overlapping.mp hj).2)

theorem meanParting_singleton (h : overlapping radius ps i = [j]) :
    meanParting radius ps i = parting radius ps i j := by
  rw [meanParting, h, List.map_singleton, Vec3.centroid_singleton]

/-- Where no sphere overlaps more than one other one, what moves one of them moves the other one
back. -/
theorem sum_meanParting (h : ∀ i < ps.length, (overlapping radius ps i).length ≤ 1) :
    ((List.range ps.length).map (meanParting radius ps)).sum = 0 := by
  have hmean : ∀ i ∈ List.range ps.length, meanParting radius ps i =
      ∑ j ∈ Finset.range ps.length, if Overlap radius ps i j then parting radius ps i j else 0 := by
    intro i hi
    have hone : ((overlapping radius ps i).map (parting radius ps i)).length ≤ 1 := by
      rw [List.length_map]
      exact h i (List.mem_range.mp hi)
    rw [meanParting, Vec3.centroid_eq_sum hone, ← Finset.sum_filter]
    rfl
  calc ((List.range ps.length).map (meanParting radius ps)).sum
      = ∑ i ∈ Finset.range ps.length, ∑ j ∈ Finset.range ps.length,
          if Overlap radius ps i j then parting radius ps i j else 0 :=
        congrArg List.sum (List.map_congr_left hmean)
    _ = 0 := sum_eq_zero_of_swap fun i j => by
        by_cases hij : Overlap radius ps i j
        · rw [if_pos hij, if_pos hij.symm, parting_swap hij.1, neg_neg]
        · rw [if_neg hij, if_neg (mt Overlap.symm hij), neg_zero]

/-- Two spheres that overlap only each other, and are not almost coincident, move in opposite directions
to the distance of two radii. -/
theorem meanParting_pair (hradius : 0 ≤ radius) (hi : overlapping radius ps i = [j])
    (hj : overlapping radius ps j = [i]) (hapart : ¬(gap ps i j).almostZero 1e-12 = true) :
    meanParting radius ps j = -meanParting radius ps i ∧
      (gap ps i j + meanParting radius ps i * (2 : ℝ)).norm = 2 * radius := by
  have hmem : j ∈ overlapping radius ps i := hi ▸ List.mem_singleton_self j
  rw [meanParting_singleton hi, meanParting_singleton hj]
  exact ⟨parting_swap (mem_overlapping.mp hmem).2.1, norm_gap_add_parting hradius hapart⟩

end Collision

namespace Goal

/-- On any nodes, whatever it responded before, a goal that parts spheres moves each center by the mean
of its ways apart from the spheres that overlap it, never further than the radius, and leaves it alone
if there are none. What it reports is the number of overlapping pairs. Two spheres that overlap only
each other and are not almost coincident end at the distance of two radii about the same midpoint. If
no sphere overlaps more than one other one, the moves cancel. -/
theorem Built.parts_spheres {g : Goal ℝ} (hg : g.Built) {radius : ℝ}
    (haim : g.aim = .sphereCollision radius) (pool : Pool ℝ)
    {nodes : List Nat} (hnodes : nodes.length = g.nodeCount) {moves : List (Vec3 ℝ)}
    (hmoves : moves.length = g.nodeCount) {weights : List ℝ}
    (hweights : weights.length = g.nodeCount) :
    let after := ({ g with nodes, moves, weights } : Goal ℝ).compute pool
    let before := pool.positions nodes
    let moved := before.zipWith (· + ·) after.moves
    let overlapping := Collision.overlapping radius before
    (∀ i < g.nodeCount, ∃ m w, after.moves[i]? = some m ∧ after.weights[i]? = some w ∧
      (overlapping i = [] → m = 0 ∧ w = 0) ∧
      (overlapping i ≠ [] → m = ((overlapping i).map (Collision.parting radius before i)).sum /
        ((overlapping i).length : ℝ) ∧ w = g.weight) ∧
      m.norm ≤ radius) ∧
    ({ g with nodes, moves, weights } : Goal ℝ).readings pool =
      [.scalar ((Collision.overlappingPairs radius before).card : ℝ)] ∧
    (∀ i j p q, before[i]? = some p → before[j]? = some q → overlapping i = [j] →
      overlapping j = [i] → ¬(q - p).almostZero 1e-12 = true →
      ∃ p' q', moved[i]? = some p' ∧ moved[j]? = some q' ∧ (q' - p').norm = 2 * radius ∧
        p' + q' = p + q) ∧
    ((∀ i < g.nodeCount, (overlapping i).length ≤ 1) → after.moves.sum = 0) := by
  intro after before moved overlapping
  have hsound := hg.sound.placed nodes hmoves hweights
  have hradius : 0 ≤ radius := by
    have hlawful := hg.lawful.aim_lawful
    rw [haim] at hlawful
    exact hlawful.2
  have hcount : before.length = g.nodeCount := (List.length_map ..).trans hnodes
  have hrespond : g.aim.respond g.nodeCount before = ((List.range before.length).map fun i =>
      (overlapping i).map (Collision.parting radius before i)).map Response.averaged := by
    rw [haim, ← Collision.mutualCorrections_pushApart hradius, Aim.respond, ← hcount,
      List.take_length]
    rfl
  have hslot : ∀ {i : Nat}, i < before.length →
      after.moves[i]? = some (Collision.meanParting radius before i) ∧
        after.weights[i]? = some (if ((overlapping i).map
          (Collision.parting radius before i)).isEmpty then 0 else g.weight) := fun hi =>
    hsound.getElem?_compute_averaged hnodes hrespond
      (List.getElem?_map.trans (congrArg _ (List.getElem?_range hi)))
  refine ⟨fun i hi => ?_, ?_, fun i j p q hp hq hi hj hapart => ?_, fun hsingle => ?_⟩
  · obtain ⟨hmove, hweight⟩ := hslot (hcount ▸ hi)
    refine ⟨_, _, hmove, hweight, fun hnone => ?_, fun hsome => ⟨?_, if_neg ?_⟩,
      Collision.norm_meanParting_le hradius before i⟩
    · have hnone : Collision.overlapping radius before i = [] := hnone
      refine ⟨?_, if_pos ?_⟩
      · rw [Collision.meanParting, hnone]
        rfl
      · rw [List.isEmpty_map, List.isEmpty_iff]
        exact hnone
    · rw [Collision.meanParting, Vec3.centroid_eq, List.length_map]
    · rwa [List.isEmpty_map, List.isEmpty_iff]
  · change g.aim.readings g.nodeCount before = _
    rw [haim]
    exact congrArg (fun k : Nat => [Reading.scalar (k : ℝ)])
      (Collision.overlapCount_eq hradius before)
  · have hgap : Collision.gap before i j = p - q := by
      rw [Collision.gap, List.getD_eq_getElem?_getD, List.getD_eq_getElem?_getD, hp, hq]
      rfl
    have hapart' : ¬(Collision.gap before i j).almostZero 1e-12 = true := by
      rwa [hgap, ← neg_sub, Vec3.almostZero_neg]
    obtain ⟨hopposite, hdistance⟩ := Collision.meanParting_pair hradius hi hj hapart'
    have hmove_i := (hslot (List.getElem?_eq_some_iff.mp hp).1).1
    have hmove_j := (hslot (List.getElem?_eq_some_iff.mp hq).1).1
    rw [hopposite] at hmove_j
    refine ⟨p + Collision.meanParting radius before i, q + -Collision.meanParting radius before i,
      ?_, ?_, ?_, by abel⟩
    · rw [List.getElem?_zipWith, hp, hmove_i]
    · rw [List.getElem?_zipWith, hq, hmove_j]
    · rw [← hdistance, ← Vec3.norm_neg, hgap, Vec3.mul_real]
      congr 1
      module
  · rw [← Collision.sum_meanParting (hcount ▸ hsingle)]
    exact congrArg List.sum ((hsound.compute_averaged hnodes hrespond).1.trans List.map_map)

/-- Two of three spheres overlap by half of what they reach. -/
theorem Built.parts_spheres_pair :
    let ps : List (Vec3 ℝ) := ([0, 1, 10] : List ℝ).map fun x => (Vec3.xAxis : Vec3 ℝ) * x
    let g : Goal ℝ := ofAim (.sphereCollision 1) ps 1
    let pool : Pool ℝ := (ps.map Node.atRest).toArray
    let after := ({ g with nodes := [0, 1, 2] } : Goal ℝ).compute pool
    let moved := (pool.positions [0, 1, 2]).zipWith (· + ·) after.moves
    g.Built ∧ after.moves.sum = 0 ∧ ∃ p q, moved[0]? = some p ∧ moved[1]? = some q ∧
      (q - p).norm = 2 ∧ p + q = Vec3.xAxis := by
  intro ps g pool after moved
  have hmade : sphereCollision ps 1 1 = .ok g :=
    sphereCollision_eq_ok_iff.mpr ⟨by simp [ps], usable_real_iff.mpr zero_le_one,
      usable_real_iff.mpr zero_le_one, rfl⟩
  have hbuilt : g.Built := .made (.sphereCollision hmade) (.of_shapeless rfl)
  have hplace : ∀ i, ps.getD i 0 = (Vec3.xAxis : Vec3 ℝ) * ([0, 1, 10] : List ℝ).getD i 0 := by
    intro i
    rw [List.getD_eq_getElem?_getD, List.getElem?_map, List.getD_eq_getElem?_getD]
    cases ([0, 1, 10] : List ℝ)[i]? with
    | none => simp [Vec3.mul_real]
    | some x => rfl
  have hoverlapping : ∀ i, Collision.overlapping 1 ps i = [0, 1, 2].filter fun j =>
      i ≠ j ∧ |([0, 1, 10] : List ℝ).getD i 0 - ([0, 1, 10] : List ℝ).getD j 0| < 2 := fun i => by
    refine List.filter_congr fun j _ => decide_eq_decide.mpr (and_congr_right fun _ => ?_)
    rw [Collision.gap, hplace, hplace, Vec3.mul_real, Vec3.mul_real, ← sub_smul, ← Vec3.mul_real,
      Vec3.norm_mul, Vec3.norm_xAxis, one_mul, one_add_one_eq_two]
  have hfirst : Collision.overlapping 1 ps 0 = [1] := by
    rw [hoverlapping]
    norm_num [List.filter_cons]
  have hsecond : Collision.overlapping 1 ps 1 = [0] := by
    rw [hoverlapping]
    norm_num [List.filter_cons]
  have hthird : Collision.overlapping 1 ps 2 = [] := by
    rw [hoverlapping]
    norm_num [List.filter_cons]
  obtain ⟨-, -, hpair, hsum⟩ := hbuilt.parts_spheres rfl pool
    (show [0, 1, 2].length = g.nodeCount from rfl) hbuilt.sound.moves_length
    hbuilt.sound.weights_length
  have hbeyond : ∀ i < 3, (Collision.overlapping 1 ps i).length ≤ 1 := fun i hi => by
    obtain rfl | rfl | rfl : i = 0 ∨ i = 1 ∨ i = 2 := by omega
    · exact (congrArg List.length hfirst).le
    · exact (congrArg List.length hsecond).le
    · exact (congrArg List.length hthird).le.trans zero_le_one
  have hapart : ¬((Vec3.xAxis : Vec3 ℝ) * (1 : ℝ) - (Vec3.xAxis : Vec3 ℝ) * (0 : ℝ)).almostZero
      1e-12 = true := by
    norm_num [Vec3.almostZero, Vec3.xAxis]
  obtain ⟨p, q, hp, hq, hdist, hmid⟩ := hpair 0 1 ((Vec3.xAxis : Vec3 ℝ) * (0 : ℝ))
    ((Vec3.xAxis : Vec3 ℝ) * (1 : ℝ)) rfl rfl hfirst hsecond hapart
  refine ⟨hbuilt, hsum hbeyond, p, q, hp, hq, by rw [hdist, mul_one], ?_⟩
  rw [hmid, Vec3.mul_real, Vec3.mul_real, zero_smul, one_smul, zero_add]

end Goal
end Relaxation
