import Mathlib.Analysis.Convex.Combination
import Relaxation.Proofs.Geometry.Vec3
import Relaxation.Proofs.Solver.Reachable
import Relaxation.Proofs.Solver.Request

/-!
# Iterations move nodes to weighted means

Over the reals an iteration takes every node that something pulls at to the weighted mean of the
positions proposed for it, and leaves every other node where it drifted
(`Solver.Reachable.iterate_mean`).
-/

namespace Relaxation

/-! ## Tallies of real requests -/

theorem Tally.weight_addAll (t : Tally ℝ) (rs : List (Request ℝ)) :
    (t.addAll rs).weight = t.weight + (rs.map Request.weight).sum := by
  induction rs generalizing t with
  | nil => simp
  | cons r rs ih => rw [addAll_cons, ih, add, List.map_cons, List.sum_cons, add_assoc]

theorem Tally.move_addAll (t : Tally ℝ) (rs : List (Request ℝ)) :
    (t.addAll rs).move = t.move + (rs.map fun r => r.weight • r.move).sum := by
  induction rs generalizing t with
  | nil => simp
  | cons r rs ih =>
    rw [addAll_cons, ih, add, List.map_cons, List.sum_cons, Vec3.mul_real, add_assoc]

namespace Request

/-- The total weight of requests. -/
noncomputable def total (rs : List (Request ℝ)) : ℝ := (rs.map weight).sum

/-- The weighted mean of the positions that requests propose for a node at `p`. -/
noncomputable def mean (p : Vec3 ℝ) (rs : List (Request ℝ)) : Vec3 ℝ :=
  (total rs)⁻¹ • (rs.map fun r => r.weight • (p + r.move)).sum

/-- Moving by the mean of the moves leads to the mean of the positions moved to. -/
theorem mean_eq (p : Vec3 ℝ) {rs : List (Request ℝ)} (h : total rs ≠ 0) :
    mean p rs = p + (total rs)⁻¹ • (rs.map fun r => r.weight • r.move).sum := by
  have hsum : (rs.map fun r => r.weight • (p + r.move)).sum =
      total rs • p + (rs.map fun r => r.weight • r.move).sum := by
    simp only [smul_add, List.sum_map_add, total, List.sum_smul, List.map_map, Function.comp_def]
  rw [mean, hsum, smul_add, smul_smul, inv_mul_cancel₀ h, one_smul]

theorem total_eq_zero_iff {rs : List (Request ℝ)} (h : ∀ r ∈ rs, 0 ≤ r.weight) :
    total rs = 0 ↔ ∀ r ∈ rs, ¬0 < r.weight := by
  constructor
  · intro htotal r hr
    have hzero := List.all_zero_of_le_zero_le_of_sum_eq_zero (List.forall_mem_map.mpr h) htotal
      (List.mem_map_of_mem hr)
    exact hzero.not_gt
  · intro hnone
    refine List.sum_eq_zero (List.forall_mem_map.mpr fun r hr => ?_)
    exact le_antisymm (not_lt.mp (hnone r hr)) (h r hr)

theorem mean_mem_convexHull (p : Vec3 ℝ) {rs : List (Request ℝ)}
    (h : ∀ r ∈ rs, 0 ≤ r.weight) (hpos : 0 < total rs) :
    mean p rs ∈ convexHull ℝ {x | ∃ r ∈ rs, 0 < r.weight ∧ p + r.move = x} := by
  classical
  have htotal : ∑ k : Fin rs.length, rs[k.1].weight = total rs :=
    Fin.sum_univ_fun_getElem rs Request.weight
  have hmean : Finset.univ.centerMass (fun k : Fin rs.length => rs[k.1].weight)
      (fun k => p + rs[k.1].move) = mean p rs := by
    rw [Finset.centerMass, htotal, mean,
      Fin.sum_univ_fun_getElem rs fun r => r.weight • (p + r.move)]
  -- Slots of no weight take no part in the mean, so their proposals need not be in the hull.
  rw [← hmean, ← Finset.centerMass_filter_ne_zero]
  refine Finset.centerMass_mem_convexHull _ (fun k _ => h _ (List.getElem_mem _)) ?_ ?_
  · rw [Finset.sum_filter_ne_zero, htotal]
    exact hpos
  · intro k hk
    have hne : rs[k.1].weight ≠ 0 := (Finset.mem_filter.mp hk).2
    exact ⟨_, List.getElem_mem _, (h _ (List.getElem_mem _)).lt_of_ne' hne, rfl⟩

end Request

/-! ## Weights after responding -/

section Weights

variable {α : Type} [Scalar α] {pool : Pool α} {g : Goal α}

theorem Goal.Attached.weights_compute (h : g.Attached pool.size) :
    (g.compute pool).weights =
      (g.aim.respond g.nodeCount (g.positions pool)).weights g.weight := by
  rw [h.compute_eq h.nodes_length pool]

/-- A response leaves nothing of what the buffer of weights held before. -/
theorem Goal.Attached.eq_or_eq_of_mem_weights {w : α} (h : g.Attached pool.size)
    (hw : w ∈ (g.compute pool).weights) : w = 0 ∨ w = g.weight :=
  Response.eq_or_eq_zero_of_mem_weights (h.weights_compute ▸ hw)

end Weights

namespace Solver

theorem WellFormed.eq_or_eq_of_mem_weights {α : Type} [Scalar α] {s : Solver α}
    (h : s.WellFormed) {g : Goal α} (hg : g ∈ s.computed.goals) {w : α} (hw : w ∈ g.weights) :
    w = 0 ∨ w = g.weight := by
  obtain ⟨g₀, hg₀, rfl⟩ := Array.mem_map.mp hg
  exact (h.drain.drift.goals_attached g₀ hg₀).eq_or_eq_of_mem_weights hw

/-- No goal asks with a negative weight. -/
theorem WellFormed.nonneg_of_mem_weights {s : Solver ℝ} (h : s.WellFormed) {g : Goal ℝ}
    (hg : g ∈ s.computed.goals) {w : ℝ} (hw : w ∈ g.weights) : 0 ≤ w := by
  rcases h.eq_or_eq_of_mem_weights hg hw with rfl | rfl
  · exact le_rfl
  · exact usable_real_iff.mp (h.computed.goals_attached g hg).usable_weight

/-! ## Requests of a solver -/

theorem handleWeight_pos : 0 < (handleWeight : ℝ) := by
  rw [handleWeight, Scalar.ofScientific_real]
  norm_num

theorem pullRequest_weight {s : Solver ℝ} {i : Nat} {r : Request ℝ}
    (h : s.pullRequest i = some r) : r.weight = handleWeight := by
  unfold pullRequest at h
  split at h
  · obtain ⟨_, _, rfl⟩ := Option.map_eq_some_iff.mp h
    rfl
  · simp at h

theorem mem_requests {s : Solver ℝ} {i : Nat} {r : Request ℝ} :
    r ∈ s.requests i ↔ (∃ g ∈ s.goals, r ∈ g.requests i) ∨ s.pullRequest i = some r := by
  simp [requests]

theorem WellFormed.request_nonneg {s : Solver ℝ} (h : s.WellFormed) {i : Nat} {r : Request ℝ}
    (hr : r ∈ s.computed.requests i) : 0 ≤ r.weight := by
  rcases mem_requests.mp hr with ⟨g, hg, hr⟩ | hpull
  · obtain ⟨slot, _, _, hw⟩ := Goal.mem_requests.mp hr
    exact h.nonneg_of_mem_weights hg (List.mem_of_getElem? hw)
  · rw [pullRequest_weight hpull]
    exact handleWeight_pos.le

/-- Every slot with a weight also has a move, so it makes a request. -/
theorem WellFormed.exists_request {s : Solver ℝ} (h : s.WellFormed) {g : Goal ℝ}
    (hg : g ∈ s.goals) {i slot : Nat} {w : ℝ} (hi : g.nodes[slot]? = some i)
    (hw : g.weights[slot]? = some w) : ∃ r ∈ g.requests i, r.weight = w := by
  have hattached := h.goals_attached g hg
  have hslot : slot < g.moves.length := by
    rw [hattached.moves_length, ← hattached.weights_length]
    exact (List.getElem?_eq_some_iff.mp hw).1
  exact ⟨⟨g.moves[slot], w⟩, Goal.mem_requests.mpr ⟨slot, hi, List.getElem?_eq_getElem hslot, hw⟩,
    rfl⟩

/-- The total is zero exactly when no goal asks with a positive weight and the pointer does not
pull. -/
theorem WellFormed.total_eq_zero_iff {s : Solver ℝ} (h : s.WellFormed) (i : Nat) :
    Request.total (s.computed.requests i) = 0 ↔
      (∀ g ∈ s.computed.goals, ∀ (slot : Nat) (w : ℝ), g.nodes[slot]? = some i →
        g.weights[slot]? = some w → ¬0 < w) ∧ s.computed.pullRequest i = none := by
  rw [Request.total_eq_zero_iff fun r hr => h.request_nonneg hr]
  constructor
  · intro hnone
    refine ⟨fun g hg slot w hi hw => ?_, Option.eq_none_iff_forall_not_mem.mpr fun r hr => ?_⟩
    · obtain ⟨r, hr, rfl⟩ := h.computed.exists_request hg hi hw
      exact hnone r (mem_requests.mpr (.inl ⟨g, hg, hr⟩))
    · have hpos := hnone r (mem_requests.mpr (.inr hr))
      rw [pullRequest_weight hr] at hpos
      exact hpos handleWeight_pos
  · rintro ⟨hgoals, hpull⟩ r hr
    rcases mem_requests.mp hr with ⟨g, hg, hr⟩ | hpulled
    · obtain ⟨slot, hi, _, hw⟩ := Goal.mem_requests.mp hr
      exact hgoals g hg slot r.weight hi hw
    · simp [hpull] at hpulled

/-! ## One iteration -/

theorem position_move (params : Params ℝ) (n : Node ℝ) (rs : List (Request ℝ)) :
    (n.move params (Tally.zero.addAll rs)).position =
      if Request.total rs = 0 then n.position else Request.mean n.position rs := by
  have hweight : (Tally.zero.addAll rs : Tally ℝ).weight = Request.total rs :=
    (Tally.weight_addAll _ rs).trans (zero_add _)
  have hmove : (Tally.zero.addAll rs : Tally ℝ).move = (rs.map fun r => r.weight • r.move).sum :=
    (Tally.move_addAll _ rs).trans (zero_add _)
  unfold Node.move
  rw [hweight]
  split
  next hzero =>
    rw [if_pos (Scalar.beq_real_iff.mp hzero)]
    split <;> rfl
  next hne =>
    rw [Scalar.beq_real_iff] at hne
    rw [if_neg hne, Request.mean_eq _ hne, ← hmove, ← Vec3.div_real]

/-- What an iteration does to a solver over the reals. After the response of the goals every weight
is zero or that of its goal, and none is negative. A node that something pulls at, be it a slot of
positive weight or the pointer, ends at the weighted mean of the positions that are proposed for it,
and so in their convex hull; any other node stays where it drifted. -/
theorem Reachable.iterate_mean {s : Solver ℝ} (h : s.Reachable) :
    (∀ g ∈ s.computed.goals, ∀ w ∈ g.weights, (w = 0 ∨ w = g.weight) ∧ 0 ≤ w) ∧
    ∀ (i : Nat) (n : Node ℝ), s.drift.nodes[i]? = some n →
      ∃ tally n', s.iterate.tallies[i]? = some tally ∧ s.iterate.nodes[i]? = some n' ∧
        tally.weight = Request.total (s.computed.requests i) ∧
        (tally.weight = 0 ↔
          (∀ g ∈ s.computed.goals, ∀ (slot : Nat) (w : ℝ), g.nodes[slot]? = some i →
            g.weights[slot]? = some w → ¬0 < w) ∧ s.computed.pullRequest i = none) ∧
        (0 < tally.weight →
          n'.position = Request.mean n.position (s.computed.requests i) ∧
          n'.position ∈ convexHull ℝ
            {x | ∃ r ∈ s.computed.requests i, 0 < r.weight ∧ n.position + r.move = x}) ∧
        (tally.weight = 0 → n'.position = n.position) := by
  have hwf := h.wellFormed
  refine ⟨fun g hg w hw => ⟨hwf.eq_or_eq_of_mem_weights hg hw, hwf.nonneg_of_mem_weights hg hw⟩,
    fun i n hn => ?_⟩
  have hi : i < s.nodes.size := by
    rw [← size_nodes_computed, nodes_computed]
    exact (Array.getElem?_eq_some_iff.mp hn).1
  have hn' := getElem?_nodes_iterate hwf i
  rw [nodes_computed, hn, Option.map_some] at hn'
  have hweight : (Tally.zero.addAll (s.computed.requests i)).weight =
      Request.total (s.computed.requests i) :=
    (Tally.weight_addAll ..).trans (zero_add _)
  refine ⟨_, _, getElem?_tallies_iterate hwf hi, hn', ?_⟩
  rw [hweight, position_move]
  refine ⟨rfl, hwf.total_eq_zero_iff i, fun hpos => ?_, fun hzero => if_pos hzero⟩
  rw [if_neg hpos.ne']
  exact ⟨rfl, Request.mean_mem_convexHull _ (fun r hr => hwf.request_nonneg hr) hpos⟩

/-- The one node of the anchored solver reaches its anchor in one iteration. -/
theorem iterate_mean_anchored :
    anchored.Reachable ∧
      ∃ n, anchored.iterate.nodes[0]? = some n ∧ n.position = Vec3.xAxis := by
  refine ⟨reachable_anchored, ?_⟩
  have hdrift : anchored.drift.nodes[0]? = some (Node.atRest 0).drift := by
    rw [anchored_eq]
    simp [drift, new, Params.default]
  have hposition : (Node.atRest (0 : Vec3 ℝ)).drift.position = 0 := by
    simp [Node.drift, Node.atRest]
  have hrequests : anchored.computed.requests 0 = [⟨Vec3.xAxis, 1⟩] := by
    rw [anchored_eq]
    simp [requests, computed, pullRequest, drain, drift, compute, new, Params.default,
      Goal.requests, Goal.compute, Aim.respond, Goal.ofAim, Response.project, Response.moves,
      Response.weights, overwrite, Goal.positions, Pool.positions, Pool.position, Node.drift,
      Node.atRest]
  obtain ⟨tally, n, _, hn, htotal, _, hmean, _⟩ :=
    (Reachable.iterate_mean reachable_anchored).2 0 _ hdrift
  rw [hrequests] at htotal hmean
  have hpos : 0 < tally.weight := by simp [htotal, Request.total]
  refine ⟨n, hn, (hmean hpos).1.trans ?_⟩
  simp [Request.mean, Request.total, hposition]

end Solver
end Relaxation
