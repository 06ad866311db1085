import Mathlib.Logic.Equiv.Basic
import Relaxation.Proofs.Geometry.Vec3
import Relaxation.Proofs.Solver.Reachable
import Relaxation.Proofs.Solver.Request

/-!
# The order of goals

Over the reals the order of a solver's goals does not matter. What the goals ask of a node is summed
up in another order, but to the same tally (`Tally.addAll_perm`), so two solvers that differ by a
permutation of their goals stay so through every run (`Solver.Reordered.iterateN`), with their nodes
moving alike (`Solver.iterateN_reordered`).
-/

namespace Relaxation

/-! ## Lists in another order -/

theorem filterMap_getElem?_range {β : Type} (bs : List β) :
    (List.range bs.length).filterMap (bs[·]?) = bs := by
  induction bs with
  | nil => rfl
  | cons b bs ih =>
    rw [List.length_cons, List.range_succ_eq_map, List.filterMap_cons, List.filterMap_map]
    exact congrArg (b :: ·) ih

/-- A bijection of the places takes those of the one list to those of the other. -/
theorem perm_of_getElem?_eq {β : Type} {σ : Equiv.Perm ℕ} {bs cs : List β}
    (h : ∀ k, cs[σ k]? = bs[k]?) : bs.Perm cs := by
  have hbound : ∀ k, σ k < cs.length ↔ k < bs.length := by
    intro k
    rw [← not_le, ← not_le, ← List.getElem?_eq_none_iff, ← List.getElem?_eq_none_iff, h k]
  have hplaces : ((List.range bs.length).map σ).Perm (List.range cs.length) := by
    refine (List.perm_ext_iff_of_nodup (List.nodup_range.map σ.injective) List.nodup_range).mpr ?_
    intro j
    rw [List.mem_map, List.mem_range]
    constructor
    · rintro ⟨k, hk, rfl⟩
      exact (hbound k).mpr (List.mem_range.mp hk)
    · intro hj
      refine ⟨σ.symm j, List.mem_range.mpr ((hbound _).mp ?_), σ.apply_symm_apply j⟩
      rwa [σ.apply_symm_apply]
  have hread : (List.range bs.length).filterMap (bs[·]?) =
      ((List.range bs.length).map σ).filterMap (cs[·]?) := by
    rw [List.filterMap_map]
    exact List.filterMap_congr fun k _ => (h k).symm
  calc bs = (List.range bs.length).filterMap (bs[·]?) := (filterMap_getElem?_range bs).symm
    _ = ((List.range bs.length).map σ).filterMap (cs[·]?) := hread
    List.Perm _ ((List.range cs.length).filterMap (cs[·]?)) := hplaces.filterMap _
    _ = cs := filterMap_getElem?_range cs

/-! ## Sums in another order -/

theorem Tally.add_swap (t : Tally ℝ) (r r' : Request ℝ) :
    (t.add r.move r.weight).add r'.move r'.weight =
      (t.add r'.move r'.weight).add r.move r.weight := by
  simp only [add, mk.injEq]
  exact ⟨add_right_comm .., add_right_comm ..⟩

theorem Tally.addAll_perm {rs rs' : List (Request ℝ)} (h : rs.Perm rs') (t : Tally ℝ) :
    t.addAll rs = t.addAll rs' := by
  apply h.foldl_eq'
  intro r _ r' _ t
  exact add_swap t r r'

namespace Solver

/-! ## Solvers that differ in the order of their goals -/

section

variable {α : Type} [Scalar α]

/-- The solvers have the same settings, nodes and pointer, and the goal at place `k` of the one is
the goal at place `σ k` of the other. -/
structure Reordered (σ : Equiv.Perm ℕ) (s s' : Solver α) : Prop where
  params_eq : s.params = s'.params
  nodes_eq : s.nodes = s'.nodes
  interaction_eq : s.interaction = s'.interaction
  getElem?_goals : ∀ k, s'.goals[σ k]? = s.goals[k]?
  /-- Equally many nodes have a tally, whatever the tallies hold. In well-formed solvers these are
  all nodes. -/
  size_tallies_eq : s.tallies.size = s'.tallies.size

namespace Reordered

variable {σ : Equiv.Perm ℕ} {s s' : Solver α}

theorem drain (h : s.Reordered σ s') : s.drain.Reordered σ s'.drain :=
  { h with interaction_eq := by simp only [Solver.drain, h.nodes_eq, h.interaction_eq] }

theorem drift (h : s.Reordered σ s') : s.drift.Reordered σ s'.drift where
  params_eq := by rw [params_drift, params_drift, h.params_eq]
  nodes_eq := by rw [nodes_drift, nodes_drift, h.params_eq, h.nodes_eq]
  interaction_eq := by rw [interaction_drift, interaction_drift, h.interaction_eq]
  getElem?_goals := by rw [goals_drift, goals_drift]; exact h.getElem?_goals
  size_tallies_eq := by rw [tallies_drift, tallies_drift, h.size_tallies_eq]

theorem compute (h : s.Reordered σ s') : s.compute.Reordered σ s'.compute := by
  refine { h with getElem?_goals := fun k => ?_ }
  simp only [Solver.compute, Array.getElem?_map, h.getElem?_goals, h.nodes_eq]

theorem computed (h : s.Reordered σ s') : s.computed.Reordered σ s'.computed :=
  h.drain.drift.compute

theorem pullRequest_eq (h : s.Reordered σ s') (i : Nat) : s.pullRequest i = s'.pullRequest i := by
  simp only [pullRequest, h.params_eq, h.nodes_eq, h.interaction_eq]

/-- A node receives the same requests, in another order. -/
theorem requests_perm (h : s.Reordered σ s') (i : Nat) :
    (s.requests i).Perm (s'.requests i) := by
  have hgoals : s.goals.toList.Perm s'.goals.toList := by
    apply perm_of_getElem?_eq (σ := σ)
    intro k
    rw [Array.getElem?_toList, Array.getElem?_toList, h.getElem?_goals]
  rw [requests, requests, h.pullRequest_eq]
  exact (hgoals.flatMap_right _).append_right _

end Reordered
end

/-! ## Runs -/

variable {σ : Equiv.Perm ℕ} {s s' : Solver ℝ}

theorem Reordered.iterate (h : s.Reordered σ s') : s.iterate.Reordered σ s'.iterate := by
  have hcomputed := h.computed
  have hnodes : s.iterate.nodes = s'.iterate.nodes := by
    apply Array.ext_getElem?
    intro i
    have htally := Tally.addAll_perm (hcomputed.requests_perm i) Tally.zero
    rw [getElem?_nodes_iterate_eq_ite, getElem?_nodes_iterate_eq_ite, hcomputed.nodes_eq,
      h.params_eq, h.size_tallies_eq, htally]
  have hsize : s.iterate.tallies.size = s'.iterate.tallies.size := by
    rw [size_tallies_iterate, size_tallies_iterate, h.size_tallies_eq]
  exact ⟨hcomputed.params_eq, hnodes, hcomputed.interaction_eq, hcomputed.getElem?_goals, hsize⟩

theorem Reordered.iterateN (h : s.Reordered σ s') (n : ℕ) :
    (s.iterateN n).Reordered σ (s'.iterateN n) := by
  induction n with
  | zero => exact h
  | succ n ih => exact ih.iterate

/-- However long they run, solvers that differ in the order of their goals have the same nodes, with
equal positions and velocities, and the same kinetic energy, and each goal of the one is still the
goal of the other at the place that it had there. -/
theorem iterateN_reordered (h : s.Reordered σ s') (n : ℕ) :
    (s.iterateN n).nodes = (s'.iterateN n).nodes ∧
    (s.iterateN n).kineticEnergy = (s'.iterateN n).kineticEnergy ∧
    ∀ k, (s'.iterateN n).goals[σ k]? = (s.iterateN n).goals[k]? := by
  have hrun := h.iterateN n
  exact ⟨hrun.nodes_eq, congrArg Pool.kineticEnergy hrun.nodes_eq, hrun.getElem?_goals⟩

/-- Two anchors that pull at one node with different weights, in either order. -/
theorem iterateN_reordered_anchors :
    let g : Goal ℝ := { Goal.ofAim (.anchor Vec3.xAxis) [0] 1 with nodes := [0] }
    let g' : Goal ℝ := { Goal.ofAim (.anchor Vec3.zAxis) [0] 2 with nodes := [0] }
    let s : Solver ℝ := { anchored with goals := #[g, g'] }
    let s' : Solver ℝ := { anchored with goals := #[g', g] }
    s.Reordered (Equiv.swap 0 1) s' ∧ (s.iterateN 5).nodes = (s'.iterateN 5).nodes ∧
      (s'.iterateN 5).goals[1]? = (s.iterateN 5).goals[0]? := by
  intro g g' s s'
  have h : s.Reordered (Equiv.swap 0 1) s' := by
    refine ⟨rfl, rfl, rfl, fun k => ?_, rfl⟩
    match k with
    | 0 | 1 => simp [s, s']
    | k + 2 => rw [Equiv.swap_apply_of_ne_of_ne (by omega) (by omega)]; simp [s, s']
  obtain ⟨hnodes, _, hgoals⟩ := iterateN_reordered h 5
  have hplace : Equiv.swap 0 1 0 = 1 := Equiv.swap_apply_left 0 1
  exact ⟨h, hnodes, hplace ▸ hgoals 0⟩

end Solver
end Relaxation
