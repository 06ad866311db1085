import Relaxation.Proofs.Solver.Reachable
import Relaxation.Proofs.Solver.Request

/-!
# Runs after a reset repeat

Responding leaves nothing of what a goal's buffers held, so solvers that agree in all but these
buffers, the tallies and the node nearest to the pointer run alike (`Solver.RunsLike.iterateN`). A
run that is followed by a reset leads back to such a solver (`Solver.runsLike_reset_iterateN`), hence
runs from a reset repeat themselves (`Solver.Reachable.replays`).
-/

namespace Relaxation

variable {α : Type} [Scalar α]

/-! ## Goals without their buffers -/

namespace Goal

omit [Scalar α] in
/-- The goal without its buffers: its aim, weight, starting positions and nodes. -/
def bare (g : Goal α) : Goal α := { g with moves := [], weights := [] }

@[simp] theorem bare_compute (pool : Pool α) (g : Goal α) : (g.compute pool).bare = g.bare := rfl

/-- The response of a goal depends on its parameters and the positions of its own nodes only. -/
theorem Attached.compute_congr {count count' : Nat} {pool pool' : Pool α} {g g' : Goal α}
    (h : g.Attached count) (h' : g'.Attached count') (hbare : g.bare = g'.bare)
    (hpositions : g.positions pool = g'.positions pool') : g.compute pool = g'.compute pool' := by
  rw [h.compute_eq h.nodes_length, h'.compute_eq h'.nodes_length]
  obtain ⟨aim, weight, starts, nodes, moves, weights⟩ := g
  obtain ⟨aim', weight', starts', nodes', moves', weights'⟩ := g'
  simp only [bare, mk.injEq, and_true] at hbare
  obtain ⟨rfl, rfl, rfl, rfl⟩ := hbare
  simp only [nodeCount, hpositions]

/-- Buffers of the right length may hold anything. -/
theorem Attached.of_bare {count : Nat} {g g' : Goal α} (h : g.Attached count)
    (hbare : g'.bare = g.bare) (hmoves : g'.moves.length = g'.nodeCount)
    (hweights : g'.weights.length = g'.nodeCount) : g'.Attached count := by
  obtain ⟨aim, weight, starts, nodes, moves, weights⟩ := g
  obtain ⟨aim', weight', starts', nodes', moves', weights'⟩ := g'
  simp only [bare, mk.injEq, and_true] at hbare
  obtain ⟨rfl, rfl, rfl, rfl⟩ := hbare
  exact ⟨⟨hmoves, hweights, h.fits, h.usable_weight⟩, h.nodes_length, h.nodes_lt⟩

end Goal

theorem Interaction.queue_foldl_obey (pool : Pool α) (x : Interaction α)
    (commands : List (Command α)) : (commands.foldl (obey pool) x).queue = x.queue := by
  induction commands generalizing x with
  | nil => rfl
  | cons command commands ih =>
    rw [List.foldl_cons, ih]
    cases command <;> rfl

omit [Scalar α] in
theorem Interaction.Holds.filter_handle {count : Nat} {x : Interaction α} (h : x.Holds count) :
    x.handle.filter (· < count) = x.handle := by
  cases hi : x.handle with
  | none => rfl
  | some i => rw [Option.filter_some, if_pos (decide_eq_true (h i hi))]

/-! ## Solvers that run alike -/

namespace Solver

/-- The solvers agree in all that iterations depend on: not in what goals asked for before, nor in
the tallies, the number of iterations and the node that was nearest to the pointer. No commands
wait in either of them. -/
structure RunsLike (s s' : Solver α) : Prop where
  params_eq : s.params = s'.params
  nodes_eq : s.nodes = s'.nodes
  goals_eq : s.goals.map Goal.bare = s'.goals.map Goal.bare
  pointer_eq : s.interaction.pointer = s'.interaction.pointer
  handle_eq : s.interaction.handle = s'.interaction.handle
  queue_eq : s.interaction.queue = []
  queue_eq' : s'.interaction.queue = []

namespace RunsLike

variable {s s' s'' : Solver α}

omit [Scalar α] in
theorem refl (h : s.interaction.queue = []) : s.RunsLike s := ⟨rfl, rfl, rfl, rfl, rfl, h, h⟩

omit [Scalar α] in
theorem trans (h : s.RunsLike s') (h' : s'.RunsLike s'') : s.RunsLike s'' :=
  ⟨h.params_eq.trans h'.params_eq, h.nodes_eq.trans h'.nodes_eq, h.goals_eq.trans h'.goals_eq,
    h.pointer_eq.trans h'.pointer_eq, h.handle_eq.trans h'.handle_eq, h.queue_eq, h'.queue_eq'⟩

end RunsLike

/-! ### The parts of an iteration -/

@[simp] theorem queue_drain (s : Solver α) : s.drain.interaction.queue = [] :=
  Interaction.queue_foldl_obey s.nodes { s.interaction with queue := [] } s.interaction.queue

theorem pointer_drain {s : Solver α} (h : s.interaction.queue = []) :
    s.drain.interaction.pointer = s.interaction.pointer := by
  simp only [drain, Interaction.drain, Interaction.refresh, h, List.foldl_nil]

theorem handle_drain {s : Solver α} (h : s.interaction.queue = []) :
    s.drain.interaction.handle = s.interaction.handle.filter (· < s.nodes.size) := by
  simp only [drain, Interaction.drain, Interaction.refresh, h, List.foldl_nil]

namespace RunsLike

variable {s s' : Solver α}

theorem drift (h : s.RunsLike s') : s.drift.RunsLike s'.drift where
  params_eq := by rw [params_drift, params_drift, h.params_eq]
  nodes_eq := by rw [nodes_drift, nodes_drift, h.params_eq, h.nodes_eq]
  goals_eq := by rw [goals_drift, goals_drift, h.goals_eq]
  pointer_eq := by rw [interaction_drift, interaction_drift, h.pointer_eq]
  handle_eq := by rw [interaction_drift, interaction_drift, h.handle_eq]
  queue_eq := by rw [interaction_drift, h.queue_eq]
  queue_eq' := by rw [interaction_drift, h.queue_eq']

theorem drain (h : s.RunsLike s') : s.drain.RunsLike s'.drain where
  params_eq := h.params_eq
  nodes_eq := h.nodes_eq
  goals_eq := h.goals_eq
  pointer_eq := by rw [pointer_drain h.queue_eq, pointer_drain h.queue_eq', h.pointer_eq]
  handle_eq := by
    rw [handle_drain h.queue_eq, handle_drain h.queue_eq', h.handle_eq, h.nodes_eq]
  queue_eq := queue_drain s
  queue_eq' := queue_drain s'

/-- The goals respond alike, whatever their buffers held before. -/
theorem goals_compute (h : s.RunsLike s') (hs : s.WellFormed) (hs' : s'.WellFormed) :
    s.compute.goals = s'.compute.goals := by
  apply Array.ext_getElem?
  intro i
  have hbare : (s.goals.map Goal.bare)[i]? = (s'.goals.map Goal.bare)[i]? := by rw [h.goals_eq]
  simp only [compute, Array.getElem?_map] at hbare ⊢
  cases hg : s.goals[i]? with
  | none =>
    rw [hg, Option.map_none, eq_comm, Option.map_eq_none_iff] at hbare
    rw [hbare, Option.map_none, Option.map_none]
  | some g =>
    rw [hg, Option.map_some, eq_comm, Option.map_eq_some_iff] at hbare
    obtain ⟨g', hg', hbare⟩ := hbare
    have hattached := hs.goals_attached g (Array.mem_of_getElem? hg)
    have hattached' := hs'.goals_attached g' (Array.mem_of_getElem? hg')
    have hpositions : g.positions s.nodes = g'.positions s'.nodes := by
      have hnodes : g.bare.nodes = g'.bare.nodes := by rw [hbare]
      exact congrArg₂ Pool.positions h.nodes_eq hnodes
    rw [hg', Option.map_some, Option.map_some,
      hattached.compute_congr hattached' hbare.symm hpositions]

theorem compute (h : s.RunsLike s') (hs : s.WellFormed) (hs' : s'.WellFormed) :
    s.compute.RunsLike s'.compute :=
  { h with goals_eq := by rw [h.goals_compute hs hs'] }

theorem pullRequest_eq (h : s.RunsLike s') (i : Nat) : s.pullRequest i = s'.pullRequest i := by
  simp only [pullRequest, Interaction.target, h.params_eq, h.nodes_eq, h.handle_eq, h.pointer_eq]

/-- The nodes move alike, and nothing is left that could tell the solvers apart. -/
theorem iterate (h : s.RunsLike s') (hs : s.WellFormed) (hs' : s'.WellFormed) :
    s.iterate.RunsLike s'.iterate := by
  have hcomputed : s.computed.RunsLike s'.computed :=
    h.drain.drift.compute hs.drain.drift hs'.drain.drift
  have hgoals : s.computed.goals = s'.computed.goals :=
    h.drain.drift.goals_compute hs.drain.drift hs'.drain.drift
  refine { hcomputed with nodes_eq := ?_ }
  apply Array.ext_getElem?
  intro i
  have hrequests : s.computed.requests i = s'.computed.requests i := by
    rw [requests, requests, hgoals, hcomputed.pullRequest_eq]
  rw [getElem?_nodes_iterate hs, getElem?_nodes_iterate hs', hcomputed.nodes_eq,
    hcomputed.params_eq, hrequests]

theorem iterateN (h : s.RunsLike s') (hs : s.WellFormed) (hs' : s'.WellFormed) (n : Nat) :
    (s.iterateN n).RunsLike (s'.iterateN n) := by
  induction n with
  | zero => exact h
  | succ n ih => exact ih.iterate (hs.iterateN n) (hs'.iterateN n)

theorem reset (h : s.RunsLike s') : s.reset.RunsLike s'.reset :=
  { h with nodes_eq := congrArg (Array.map Node.reset) h.nodes_eq }

end RunsLike

/-! ### Back to the start -/

/-- An iteration is undone by a reset. -/
theorem runsLike_reset_iterate {s : Solver α} (h : s.WellFormed)
    (hqueue : s.interaction.queue = []) : s.iterate.reset.RunsLike s.reset where
  params_eq := params_drift s.drain
  nodes_eq := by
    have hreset : ∀ pool : Pool α, pool.map Node.reset = (pool.map Node.start).map Node.atRest :=
      fun pool => by rw [Array.map_map]; rfl
    change s.iterate.nodes.map Node.reset = s.nodes.map Node.reset
    rw [hreset, hreset, map_start_iterate]
  goals_eq := by
    change (s.drain.drift.goals.map (Goal.compute _)).map Goal.bare = s.goals.map Goal.bare
    rw [Array.map_map, goals_drift]
    rfl
  pointer_eq := by
    change s.drain.drift.interaction.pointer = s.interaction.pointer
    rw [interaction_drift, pointer_drain hqueue]
  handle_eq := by
    change s.drain.drift.interaction.handle = s.interaction.handle
    rw [interaction_drift, handle_drain hqueue, h.holds.filter_handle]
  queue_eq := by
    change s.drain.drift.interaction.queue = []
    rw [interaction_drift, queue_drain]
  queue_eq' := hqueue

theorem queue_iterateN {s : Solver α} (h : s.interaction.queue = []) (n : Nat) :
    (s.iterateN n).interaction.queue = [] := by
  cases n with
  | zero => exact h
  | succ n =>
    change (s.iterateN n).drain.drift.interaction.queue = []
    rw [interaction_drift, queue_drain]

theorem runsLike_reset_iterateN {s : Solver α} (h : s.WellFormed)
    (hqueue : s.interaction.queue = []) (n : Nat) : (s.iterateN n).reset.RunsLike s.reset := by
  induction n with
  | zero => exact .refl hqueue
  | succ n ih => exact (runsLike_reset_iterate (h.iterateN n) (queue_iterateN hqueue n)).trans ih

@[simp] theorem reset_reset (s : Solver α) : s.reset.reset = s.reset := by
  simp only [reset, Array.map_map, Function.comp_def]
  rfl

/-- Goals with other contents in their buffers make the same solver run alike. -/
theorem WellFormed.with_goals {s : Solver α} (h : s.WellFormed) {goals : Array (Goal α)}
    (hbare : goals.map Goal.bare = s.goals.map Goal.bare)
    (hlengths : ∀ g ∈ goals, g.moves.length = g.nodeCount ∧ g.weights.length = g.nodeCount) :
    ({ s with goals } : Solver α).WellFormed := by
  refine { h with goals_attached := fun g hg => ?_ }
  have hmem : g.bare ∈ s.goals.map Goal.bare := hbare ▸ Array.mem_map_of_mem hg
  obtain ⟨g₀, hg₀, hsame⟩ := Array.mem_map.mp hmem
  exact (h.goals_attached g₀ hg₀).of_bare hsame.symm (hlengths g hg).1 (hlengths g hg).2

/-- A run from a reset repeats itself after another reset. It goes the same way from goals whose
buffers hold anything else, for each goal answers by its parameters and the positions of its own
nodes alone, in every slot of its buffers, and changes nothing but them. -/
theorem Reachable.replays {s : Solver α} (h : s.Reachable) (hqueue : s.interaction.queue = []) :
    (∀ n, ((s.reset.iterateN n).reset.iterateN n).nodes = (s.reset.iterateN n).nodes) ∧
    (∀ goals : Array (Goal α), goals.map Goal.bare = s.goals.map Goal.bare →
      (∀ g ∈ goals, g.moves.length = g.nodeCount ∧ g.weights.length = g.nodeCount) →
      ∀ n, (({ s with goals } : Solver α).reset.iterateN n).nodes = (s.reset.iterateN n).nodes) ∧
    ∀ g ∈ s.goals, ∀ pool : Pool α,
      ((g.compute pool).aim = g.aim ∧ (g.compute pool).weight = g.weight ∧
        (g.compute pool).starts = g.starts ∧ (g.compute pool).nodes = g.nodes) ∧
      (g.compute pool).moves.length = g.nodeCount ∧ (g.compute pool).weights.length = g.nodeCount ∧
      ∀ (pool' : Pool α) (moves : List (Vec3 α)) (weights : List α),
        (∀ i ∈ g.nodes, pool'.position i = pool.position i) →
        moves.length = g.nodeCount → weights.length = g.nodeCount →
        Goal.compute pool' { g with moves, weights } = g.compute pool := by
  have hwf := h.wellFormed
  refine ⟨fun n => ?_, fun goals hbare hlengths n => ?_, fun g hg pool => ?_⟩
  · have hback := runsLike_reset_iterateN hwf.reset hqueue n
    rw [reset_reset] at hback
    exact (hback.iterateN (hwf.reset.iterateN n).reset hwf.reset n).nodes_eq
  · have hwf' := hwf.with_goals hbare hlengths
    have halike : ({ s with goals } : Solver α).RunsLike s :=
      { RunsLike.refl hqueue with goals_eq := hbare }
    exact (halike.reset.iterateN hwf'.reset hwf.reset n).nodes_eq
  · have hattached := hwf.goals_attached g hg
    have hcompute := hattached.compute pool
    refine ⟨⟨rfl, rfl, rfl, rfl⟩, hcompute.moves_length, hcompute.weights_length, ?_⟩
    intro pool' moves weights hpositions hmoves hweights
    have hother : Goal.Attached s.nodes.size { g with moves, weights } :=
      hattached.of_bare rfl hmoves hweights
    exact hother.compute_congr hattached rfl (List.map_congr_left hpositions)

/-- An anchored node runs from a reset as before, also with a wrong move in the buffer of the
anchor, and the anchor answers with its own weight whatever its buffers held. -/
theorem replays_anchored :
    let g : Goal ℝ := { Goal.ofAim (.anchor Vec3.xAxis) [0] 1 with nodes := [0] }
    let stale : Goal ℝ := { g with moves := [Vec3.zAxis], weights := [7] }
    let pool : Pool ℝ := #[Node.atRest Vec3.zAxis]
    ((anchored.reset.iterateN 5).reset.iterateN 5).nodes = (anchored.reset.iterateN 5).nodes ∧
    (({ anchored with goals := #[stale] } : Solver ℝ).reset.iterateN 5).nodes =
      (anchored.reset.iterateN 5).nodes ∧
    stale.compute pool = g.compute pool := by
  intro g stale pool
  have hqueue : anchored.interaction.queue = [] := by rw [anchored_eq]; rfl
  have hgoals : anchored.goals = #[g] := by rw [anchored_eq]
  have hreplays := Reachable.replays reachable_anchored hqueue
  refine ⟨hreplays.1 5, hreplays.2.1 #[stale] ?_ ?_ 5, ?_⟩
  · simp only [hgoals, List.map_toArray, List.map_cons, List.map_nil, stale, Goal.bare]
  · intro g' hg'
    obtain rfl := Array.mem_singleton.mp hg'
    exact ⟨rfl, rfl⟩
  · have hmem : g ∈ anchored.goals := by rw [hgoals]; exact Array.mem_singleton.mpr rfl
    exact (hreplays.2.2 g hmem pool).2.2.2 pool [Vec3.zAxis] [7] (fun _ _ => rfl) rfl rfl

end Solver
end Relaxation
