import Mathlib.Data.Set.Defs
import Relaxation.Proofs.Solver.Reachable
import Relaxation.Proofs.Solver.Request

/-!
# Independent components

Let every goal lie inside a set of nodes or outside it. While the pointer does not pull, the nodes of
the set move as if the goals outside were not there (`Solver.iterateN_component`), over any numbers:
a goal reads no nodes but its own (`Goal.compute_congr`), and a node is moved by requests of the goals
that refer to it only (`Goal.requests_eq_nil`). So what happens inside depends on nothing outside
(`Solver.AgreesOn.iterateN`).
-/

namespace Relaxation

variable {α : Type}

namespace Goal

/-- The goal refers to nodes of the set only. -/
def Inside (X : Set Nat) (g : Goal α) : Prop := ∀ i ∈ g.nodes, i ∈ X

/-- The goal refers to no node of the set. -/
def Outside (X : Set Nat) (g : Goal α) : Prop := ∀ i ∈ g.nodes, i ∉ X

instance (X : Set Nat) [DecidablePred (· ∈ X)] (g : Goal α) : Decidable (g.Outside X) :=
  inferInstanceAs (Decidable (∀ i ∈ g.nodes, i ∉ X))

theorem requests_eq_nil {g : Goal α} {i : Nat} (h : i ∉ g.nodes) : g.requests i = [] := by
  refine List.eq_nil_iff_forall_not_mem.mpr fun r hr => h ?_
  obtain ⟨slot, hi, _, _⟩ := mem_requests.mp hr
  exact List.mem_of_getElem? hi

variable [Scalar α]

theorem compute_congr {pool pool' : Pool α} {g : Goal α}
    (h : g.positions pool = g.positions pool') : g.compute pool = g.compute pool' := by
  simp only [compute, h]

end Goal

namespace Solver

variable {X : Set Nat} [DecidablePred (· ∈ X)]

/-- The goals that refer to a node of the set, in order. -/
def goalsOn (X : Set Nat) [DecidablePred (· ∈ X)] (s : Solver α) : List (Goal α) :=
  s.goals.toList.filter fun g => ¬g.Outside X

/-- The solver without the goals that lie outside the set. -/
def component (X : Set Nat) [DecidablePred (· ∈ X)] (s : Solver α) : Solver α :=
  { s with goals := s.goals.filter fun g => ¬g.Outside X }

/-- The solvers have the same settings, without a pull of the pointer, the same nodes in the set and
the same goals that refer to any of these, all of which lie inside. -/
structure AgreesOn (X : Set Nat) [DecidablePred (· ∈ X)] (s s' : Solver α) : Prop where
  params_eq : s.params = s'.params
  pointerPull_eq : s.params.pointerPull = false
  node_eq : ∀ i ∈ X, s.nodes[i]? = s'.nodes[i]?
  goalsOn_eq : s.goalsOn X = s'.goalsOn X
  inside : ∀ g ∈ s.goalsOn X, g.Inside X
  size_tallies_eq : s.tallies.size = s'.tallies.size

/-- The goals that do not refer to the node ask nothing of it. -/
theorem flatMap_requests_goalsOn (s : Solver α) {i : Nat} (hi : i ∈ X) :
    s.goals.toList.flatMap (·.requests i) = (s.goalsOn X).flatMap (·.requests i) := by
  unfold goalsOn
  induction s.goals.toList with
  | nil => rfl
  | cons g goals ih =>
    rw [List.flatMap_cons, ih]
    by_cases hout : g.Outside X
    · have hnot : i ∉ g.nodes := fun hmem => hout i hmem hi
      rw [Goal.requests_eq_nil hnot, List.filter_cons_of_neg (by simpa using hout), List.nil_append]
    · rw [List.filter_cons_of_pos (by simpa using hout), List.flatMap_cons]

variable [Scalar α]

theorem goalsOn_drift (s : Solver α) : s.drift.goalsOn X = s.goalsOn X := by
  rw [goalsOn, goals_drift, goalsOn]

theorem goalsOn_compute (s : Solver α) :
    s.compute.goalsOn X = (s.goalsOn X).map (Goal.compute s.nodes) := by
  rw [goalsOn, compute, Array.toList_map, List.filter_map]
  rfl

namespace AgreesOn

variable {s s' : Solver α}

theorem drain (h : s.AgreesOn X s') : s.drain.AgreesOn X s'.drain :=
  ⟨h.params_eq, h.pointerPull_eq, h.node_eq, h.goalsOn_eq, h.inside, h.size_tallies_eq⟩

theorem drift (h : s.AgreesOn X s') : s.drift.AgreesOn X s'.drift where
  params_eq := by rw [params_drift, params_drift, h.params_eq]
  pointerPull_eq := by rw [params_drift, h.pointerPull_eq]
  node_eq i hi := by
    rw [nodes_drift, nodes_drift, h.params_eq]
    split
    · rw [Array.getElem?_map, Array.getElem?_map, h.node_eq i hi]
    · exact h.node_eq i hi
  goalsOn_eq := by rw [goalsOn_drift, goalsOn_drift, h.goalsOn_eq]
  inside := by
    rw [goalsOn_drift]
    exact h.inside
  size_tallies_eq := by rw [tallies_drift, tallies_drift, h.size_tallies_eq]

/-- Goals inside the set respond alike, for they read their own nodes only. -/
theorem compute (h : s.AgreesOn X s') : s.compute.AgreesOn X s'.compute := by
  have hgoals : s.compute.goalsOn X = s'.compute.goalsOn X := by
    rw [goalsOn_compute, goalsOn_compute, ← h.goalsOn_eq]
    refine List.map_congr_left fun g hg => Goal.compute_congr (List.map_congr_left fun i hi => ?_)
    rw [Pool.position, Pool.position, h.node_eq i (h.inside g hg i hi)]
  refine { h with goalsOn_eq := hgoals, inside := fun g hg => ?_ }
  rw [goalsOn_compute] at hg
  obtain ⟨g₀, hg₀, rfl⟩ := List.mem_map.mp hg
  exact h.inside g₀ hg₀

theorem computed (h : s.AgreesOn X s') : s.computed.AgreesOn X s'.computed :=
  h.drain.drift.compute

theorem requests_eq (h : s.AgreesOn X s') {i : Nat} (hi : i ∈ X) :
    s.requests i = s'.requests i := by
  have hpull : s'.params.pointerPull = false := h.params_eq ▸ h.pointerPull_eq
  have hnone : s.pullRequest i = s'.pullRequest i := by
    simp only [pullRequest, h.pointerPull_eq, hpull, Bool.false_eq_true, if_false]
  rw [requests, requests, flatMap_requests_goalsOn s hi, flatMap_requests_goalsOn s' hi,
    h.goalsOn_eq, hnone]

theorem iterate (h : s.AgreesOn X s') : s.iterate.AgreesOn X s'.iterate := by
  have hcomputed := h.computed
  refine { hcomputed with node_eq := fun i hi => ?_, size_tallies_eq := ?_ }
  · rw [getElem?_nodes_iterate_eq_ite, getElem?_nodes_iterate_eq_ite, hcomputed.node_eq i hi,
      hcomputed.requests_eq hi, h.params_eq, h.size_tallies_eq]
  · rw [size_tallies_iterate, size_tallies_iterate, h.size_tallies_eq]

theorem iterateN (h : s.AgreesOn X s') (n : Nat) : (s.iterateN n).AgreesOn X (s'.iterateN n) := by
  induction n with
  | zero => exact h
  | succ n ih => exact ih.iterate

end AgreesOn

/-- Without the goals outside a set of nodes, the nodes inside move as with them, as long as every
goal lies inside or outside and the pointer does not pull. -/
theorem iterateN_component {s : Solver α} (hpull : s.params.pointerPull = false)
    (hsplit : ∀ g ∈ s.goals, g.Inside X ∨ g.Outside X) (n : Nat) :
    ∀ i ∈ X, (s.iterateN n).nodes[i]? = ((s.component X).iterateN n).nodes[i]? := by
  have hgoals : s.goalsOn X = (s.component X).goalsOn X := by
    simp [goalsOn, component]
  have hinside : ∀ g ∈ s.goalsOn X, g.Inside X := by
    intro g hg
    obtain ⟨hmem, htouches⟩ := List.mem_filter.mp hg
    exact (hsplit g (Array.mem_toList_iff.mp hmem)).resolve_right (by simpa using htouches)
  have h : s.AgreesOn X (s.component X) := ⟨rfl, hpull, fun _ _ => rfl, hgoals, hinside, rfl⟩
  exact (h.iterateN n).node_eq

/-- Of two anchors with a node each, the first moves its node as it would alone. -/
theorem iterateN_component_anchors :
    let g : Goal ℝ := { Goal.ofAim (.anchor Vec3.xAxis) [0] 1 with nodes := [0] }
    let g' : Goal ℝ := { Goal.ofAim (.anchor 0) [Vec3.zAxis] 2 with nodes := [1] }
    let s : Solver ℝ :=
      { new Params.default with
        nodes := #[Node.atRest 0, Node.atRest Vec3.zAxis]
        tallies := #[Tally.zero, Tally.zero]
        goals := #[g, g'] }
    s.params.pointerPull = false ∧ (∀ g ∈ s.goals, g.Inside {0} ∨ g.Outside {0}) ∧
      (s.component {0}).goals = #[g] ∧
      (s.iterateN 5).nodes[0]? = ((s.component {0}).iterateN 5).nodes[0]? := by
  intro g g' s
  have hin : g.Inside {0} := by simp [g, Goal.Inside]
  have hout : g'.Outside {0} := by simp [g', Goal.Outside]
  have hsplit : ∀ g ∈ s.goals, g.Inside {0} ∨ g.Outside {0} := by
    intro x hx
    have hx : x = g ∨ x = g' := by simpa [s] using hx
    rcases hx with rfl | rfl
    · exact .inl hin
    · exact .inr hout
  refine ⟨rfl, hsplit, ?_, iterateN_component rfl hsplit 5 0 rfl⟩
  have hnot : ¬g.Outside {0} := by simp [g, Goal.Outside]
  simp [component, s, hnot, hout]

end Solver
end Relaxation
