import Relaxation.Proofs.Solver.WellFormed

/-!
# Requests

What the slots of the goals and the pointer ask of one node, in the order in which it is summed up.
The tally of a node is the sum of its own requests (`Solver.getElem?_pull_collect`), over any
numbers, and an iteration moves the node by that tally.
-/

namespace Relaxation

variable {α : Type} [Scalar α]

/-- A move asked of a node, with its weight. -/
structure Request (α : Type) where
  move : Vec3 α
  weight : α

namespace Tally

/-- The tally with requests summed up into it. -/
def addAll (t : Tally α) (requests : List (Request α)) : Tally α :=
  requests.foldl (fun t r => t.add r.move r.weight) t

@[simp] theorem addAll_nil (t : Tally α) : t.addAll [] = t := rfl

@[simp] theorem addAll_cons (t : Tally α) (r : Request α) (rs : List (Request α)) :
    t.addAll (r :: rs) = (t.add r.move r.weight).addAll rs := rfl

theorem addAll_append (t : Tally α) (rs rs' : List (Request α)) :
    t.addAll (rs ++ rs') = (t.addAll rs).addAll rs' := List.foldl_append

end Tally

/-- What an iteration makes of a node that is asked for some moves. -/
def Node.iterate (params : Params α) (requests : List (Request α)) (n : Node α) : Node α :=
  (if params.momentum then n.drift else n).move params (Tally.zero.addAll requests)

/-! ## Goals -/

namespace Goal

/-- What the slots of the goal that stand for the node ask of it. -/
def requests (g : Goal α) (i : Nat) : List (Request α) :=
  (g.nodes.zip (g.moves.zip g.weights)).filterMap fun (j, move, weight) =>
    if j = i then some ⟨move, weight⟩ else none

/-- The tally of a node has the requests of the slots that refer to it, in the order of the slots.
-/
theorem getElem?_tally (g : Goal α) (tallies : Array (Tally α)) (i : Nat) :
    (g.tally tallies)[i]? = tallies[i]?.map (·.addAll (g.requests i)) := by
  unfold tally requests
  generalize g.nodes.zip (g.moves.zip g.weights) = slots
  induction slots generalizing tallies with
  | nil => simp
  | cons slot slots ih =>
    obtain ⟨j, move, weight⟩ := slot
    rw [List.foldl_cons, ih, Array.getElem?_modify, List.filterMap_cons]
    by_cases hj : j = i
    · simp [hj, Function.comp_def]
    · simp [hj]

omit [Scalar α] in
theorem mem_requests {g : Goal α} {i : Nat} {r : Request α} :
    r ∈ g.requests i ↔
      ∃ slot : Nat, g.nodes[slot]? = some i ∧ g.moves[slot]? = some r.move ∧
        g.weights[slot]? = some r.weight := by
  rw [requests, List.mem_filterMap]
  simp only [Prod.exists, List.mem_iff_getElem?, List.getElem?_zip_eq_some]
  constructor
  · rintro ⟨j, move, weight, ⟨slot, hj, hmove, hweight⟩, hr⟩
    rw [Option.ite_none_right_eq_some] at hr
    obtain ⟨rfl, hr⟩ := hr
    cases hr
    exact ⟨slot, hj, hmove, hweight⟩
  · rintro ⟨slot, hi, hmove, hweight⟩
    exact ⟨i, r.move, r.weight, ⟨slot, hi, hmove, hweight⟩, if_pos rfl⟩

end Goal

/-! ## Solvers -/

namespace Solver

/-- The pull of the pointer on the node, when there is one. -/
def pullRequest (s : Solver α) (i : Nat) : Option (Request α) :=
  if s.params.pointerPull then
    ((s.interaction.target s.nodes).filter (·.1 = i)).map fun (_, target) =>
      ⟨target - s.nodes.position i, handleWeight⟩
  else none

/-- What the goals ask of the node, goal by goal and slot by slot, and the pull on it at last. -/
def requests (s : Solver α) (i : Nat) : List (Request α) :=
  s.goals.toList.flatMap (·.requests i) ++ (s.pullRequest i).toList

/-- Goals add to a tally in their own order, which matters where sums are rounded. -/
theorem getElem?_collect (s : Solver α) (i : Nat) :
    s.collect[i]? =
      s.tallies[i]?.map fun _ => Tally.zero.addAll (s.goals.toList.flatMap (·.requests i)) := by
  have hfold : ∀ (goals : List (Goal α)) (tallies : Array (Tally α)),
      (goals.foldl (fun tallies g => g.tally tallies) tallies)[i]? =
        tallies[i]?.map (·.addAll (goals.flatMap (·.requests i))) := by
    intro goals
    induction goals with
    | nil => intro tallies; simp
    | cons g goals ih =>
      intro tallies
      rw [List.foldl_cons, ih, Goal.getElem?_tally, Option.map_map, List.flatMap_cons]
      simp only [Function.comp_def, Tally.addAll_append]
  rw [collect, ← Array.foldl_toList, hfold, Array.getElem?_map, Option.map_map]
  rfl

/-- The pull adds to the tally of the node that is held, and to no other. -/
theorem getElem?_pull (s : Solver α) (tallies : Array (Tally α)) (i : Nat) :
    (s.pull tallies)[i]? = tallies[i]?.map (·.addAll (s.pullRequest i).toList) := by
  unfold pull pullRequest
  split
  · rcases s.interaction.target s.nodes with _ | ⟨j, target⟩
    · simp
    · rw [Array.getElem?_modify]
      by_cases hj : j = i
      · subst hj; simp [Option.filter]
      · simp [hj, Option.filter]
  · simp

/-- The tally of a node sums up the requests to it from nothing. -/
theorem getElem?_pull_collect (s : Solver α) (i : Nat) :
    (s.pull s.collect)[i]? = s.tallies[i]?.map fun _ => Tally.zero.addAll (s.requests i) := by
  rw [getElem?_pull, getElem?_collect, Option.map_map]
  simp only [Function.comp_def, requests, Tally.addAll_append]

/-! ### One iteration -/

@[simp] theorem goals_drift (s : Solver α) : s.drift.goals = s.goals := by
  unfold drift
  split <;> rfl

@[simp] theorem params_drift (s : Solver α) : s.drift.params = s.params := by
  unfold drift
  split <;> rfl

@[simp] theorem interaction_drift (s : Solver α) : s.drift.interaction = s.interaction := by
  unfold drift
  split <;> rfl

@[simp] theorem tallies_drift (s : Solver α) : s.drift.tallies = s.tallies := by
  unfold drift
  split <;> rfl

/-- Without momentum a node stays until the goals move it. -/
theorem nodes_drift (s : Solver α) :
    s.drift.nodes = if s.params.momentum then s.nodes.map Node.drift else s.nodes := by
  unfold drift
  split <;> rfl

theorem map_start_drift (s : Solver α) : s.drift.nodes.map Node.start = s.nodes.map Node.start := by
  rw [nodes_drift]
  split
  · rw [Array.map_map]
    rfl
  · rfl

/-- The solver in the midst of an iteration: the commands have taken effect, the nodes have drifted
and the goals have responded, and no node has moved yet. -/
def computed (s : Solver α) : Solver α := s.drain.drift.compute

theorem WellFormed.computed {s : Solver α} (h : s.WellFormed) : s.computed.WellFormed :=
  h.drain.drift.compute

theorem nodes_computed (s : Solver α) : s.computed.nodes = s.drift.nodes :=
  (nodes_drift s.drain).trans (nodes_drift s).symm

theorem goals_computed (s : Solver α) :
    s.computed.goals = s.goals.map (Goal.compute s.computed.nodes) := by
  change s.drain.drift.goals.map _ = _
  rw [goals_drift]
  rfl

@[simp] theorem params_computed (s : Solver α) : s.computed.params = s.params :=
  params_drift s.drain

@[simp] theorem tallies_computed (s : Solver α) : s.computed.tallies = s.tallies :=
  tallies_drift s.drain

theorem size_nodes_computed (s : Solver α) : s.computed.nodes.size = s.nodes.size := by
  rw [nodes_computed, nodes_drift]
  split
  · exact Array.size_map
  · rfl

theorem getElem?_nodes_computed (s : Solver α) (i : Nat) :
    s.computed.nodes[i]? = s.nodes[i]?.map fun n => if s.params.momentum then n.drift else n := by
  rw [nodes_computed, nodes_drift]
  split
  · rw [Array.getElem?_map]
  · exact Option.map_id'.symm

theorem size_tallies_iterate (s : Solver α) : s.iterate.tallies.size = s.tallies.size := by
  have hsize : (s.computed.pull s.computed.collect).size = s.computed.tallies.size := by
    rw [size_pull, size_collect]
  exact hsize.trans (congrArg Array.size (tallies_computed s))

/-- The tallies of an iteration start from zero, whatever they held before. -/
theorem getElem?_tallies_iterate {s : Solver α} (h : s.WellFormed) {i : Nat}
    (hi : i < s.nodes.size) :
    s.iterate.tallies[i]? = some (Tally.zero.addAll (s.computed.requests i)) := by
  have hsize : i < s.computed.tallies.size := by
    rw [h.computed.tallies_size, size_nodes_computed]
    exact hi
  exact (getElem?_pull_collect s.computed i).trans
    (by rw [Array.getElem?_eq_getElem hsize, Option.map_some])

/-- Every node that has a tally moves by the requests to it. -/
theorem getElem?_nodes_iterate_eq_ite (s : Solver α) (i : Nat) :
    s.iterate.nodes[i]? = s.computed.nodes[i]?.map fun n =>
      if i < s.tallies.size then n.move s.params (Tally.zero.addAll (s.computed.requests i))
      else n := by
  change (s.computed.nodes.mapIdx _)[i]? = _
  rw [Array.getElem?_mapIdx]
  congr 1
  funext n
  have htally : (s.drain.drift.compute.pull s.drain.drift.compute.collect)[i]? = _ :=
    getElem?_pull_collect s.computed i
  rw [htally, tallies_computed]
  by_cases hi : i < s.tallies.size
  · rw [Array.getElem?_eq_getElem hi, Option.map_some, if_pos hi]
    exact congrArg (fun params => n.move params _) (params_computed s)
  · rw [Array.getElem?_eq_none (Nat.le_of_not_lt hi), Option.map_none, if_neg hi]

/-- In a well-formed solver every node moves by the requests to it. -/
theorem getElem?_nodes_iterate {s : Solver α} (h : s.WellFormed) (i : Nat) :
    s.iterate.nodes[i]? = s.computed.nodes[i]?.map
      (Node.move s.computed.params (Tally.zero.addAll (s.computed.requests i))) := by
  rw [getElem?_nodes_iterate_eq_ite, params_computed, h.tallies_size]
  by_cases hi : i < s.nodes.size
  · simp only [if_pos hi]
  · have hsize : s.computed.nodes.size ≤ i := by rw [size_nodes_computed]; omega
    rw [Array.getElem?_eq_none hsize, Option.map_none, Option.map_none]

/-- A node is iterated by itself, given what is asked of it. -/
theorem WellFormed.getElem?_iterate {s : Solver α} (h : s.WellFormed) (i : Nat) :
    s.iterate.nodes[i]? = s.nodes[i]?.map (Node.iterate s.params (s.computed.requests i)) := by
  rw [getElem?_nodes_iterate h, params_computed, getElem?_nodes_computed, Option.map_map]
  rfl

theorem size_nodes_iterate (s : Solver α) : s.iterate.nodes.size = s.nodes.size :=
  Array.size_mapIdx.trans (size_nodes_computed s)

theorem size_nodes_iterateN (s : Solver α) (n : Nat) :
    (s.iterateN n).nodes.size = s.nodes.size := by
  induction n with
  | zero => rfl
  | succ n ih => exact (size_nodes_iterate (s.iterateN n)).trans ih

theorem params_iterateN (s : Solver α) (n : Nat) : (s.iterateN n).params = s.params := by
  induction n with
  | zero => rfl
  | succ n ih => exact (params_drift (s.iterateN n).drain).trans ih

theorem map_start_iterate (s : Solver α) :
    s.iterate.nodes.map Node.start = s.nodes.map Node.start := by
  rw [← map_start_drift s, ← nodes_computed s]
  apply Array.ext_getElem?
  intro i
  rw [Array.getElem?_map, Array.getElem?_map, getElem?_nodes_iterate_eq_ite, Option.map_map]
  congr 1
  funext n
  simp only [Function.comp, Node.move]
  split
  · split
    · split <;> rfl
    · rfl
  · rfl

end Solver
end Relaxation
