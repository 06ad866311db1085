import Relaxation.Proofs.Indexing.Goal
import Relaxation.Proofs.Solver.Reachable

/-!
# Solvers stay within their lists

An iteration, the readings of the goals and the geometry of the binders once more, with every node,
buffer slot and tally looked up by its place in a way that may fail. On a well-formed solver nothing
fails, and the outcome is that of the functions proper.
-/

namespace Relaxation

variable {α : Type} [Scalar α]

/-! ## Goals -/

omit [Scalar α] in
/-- The positions of nodes in a pool. -/
def Pool.positions? (pool : Pool α) (places : List Nat) : Option (List (Vec3 α)) :=
  places.mapM fun i => pool[i]?.map Node.position

/-- Places below the size of the pool are found. -/
theorem Pool.positions?_eq_some {pool : Pool α} {places : List Nat}
    (h : ∀ i ∈ places, i < pool.size) : pool.positions? places = some (pool.positions places) :=
  mapM_eq_some_map fun i hi => by
    rw [Pool.position, Array.getElem?_eq_getElem (h i hi)]
    rfl

namespace Goal

/-- The positions of the nodes that the goal looks at, found through its own slots. -/
def positions? (pool : Pool α) (g : Goal α) : Option (List (Vec3 α)) := do
  pool.positions? (← slice? g.nodes 0 (g.aim.reach g.nodeCount))

/-- The goal with its answer in its buffers, which have to have a place for each part of it. -/
def compute? (pool : Pool α) (g : Goal α) : Option (Goal α) := do
  let response ← g.aim.respond? g.nodeCount (← g.positions? pool)
  let moves ← overwrite? response.moves g.moves
  let weights ← overwrite? (response.weights g.weight) g.weights
  return { g with moves, weights }

/-- What the goal reports of the nodes that it looks at. -/
def readings? (pool : Pool α) (g : Goal α) : Option (List (Reading α)) := do
  g.aim.readings? g.nodeCount (← g.positions? pool)

/-- Adds the move and the weight at each slot to the tally of the slot's node. -/
def tally? (g : Goal α) (tallies : Array (Tally α)) : Option (Array (Tally α)) := do
  let slots ← g.nodes.zipIdx.mapM fun (i, slot) => do
    return (i, ← g.moves[slot]?, ← g.weights[slot]?)
  slots.foldlM (fun tallies (i, move, weight) => modify? tallies i (Tally.add move weight)) tallies

namespace Attached

variable {pool : Pool α} {g : Goal α}

theorem positions?_eq_some (h : g.Attached pool.size) :
    g.positions? pool = some ((g.positions pool).take (g.aim.reach g.nodeCount)) := by
  have hreach : g.aim.reach g.nodeCount ≤ g.nodes.length :=
    Nat.le_trans (Aim.reach_le h.fits) (Nat.le_of_eq h.nodes_length.symm)
  rw [positions?, slice?_zero hreach, Option.bind_eq_bind, Option.bind_some,
    Pool.positions?_eq_some fun i hi => h.nodes_lt i (List.mem_of_mem_take hi),
    Goal.positions, Pool.positions, Pool.positions, List.map_take]

/-- The answer of an attached goal has the length of its buffers. -/
theorem compute?_eq_some (h : g.Attached pool.size) :
    g.compute? pool = some (g.compute pool) := by
  have hlen := Aim.length_respond h.fits (h.length_positions pool)
  have hmoves : (g.aim.respond g.nodeCount (g.positions pool)).moves.length ≤ g.moves.length :=
    Nat.le_of_eq (by rw [Response.length_moves, hlen, h.moves_length])
  have hweights : ((g.aim.respond g.nodeCount (g.positions pool)).weights g.weight).length ≤
      g.weights.length :=
    Nat.le_of_eq (by rw [Response.length_weights, hlen, h.weights_length])
  simp only [compute?, h.positions?_eq_some, Option.bind_eq_bind, Option.bind_some,
    Aim.respond?_take_reach h.fits (h.length_positions pool), overwrite?_eq_some hmoves,
    overwrite?_eq_some hweights]
  rfl

theorem readings?_eq_some (h : g.Attached pool.size) :
    g.readings? pool = some (g.readings pool) := by
  rw [readings?, h.positions?_eq_some, Option.bind_eq_bind, Option.bind_some,
    Aim.readings?_take_reach h.fits (h.length_positions pool), readings]

theorem slots?_eq_some (h : g.Attached pool.size) :
    (g.nodes.zipIdx.mapM fun (i, slot) => do
      return (i, ← g.moves[slot]?, ← g.weights[slot]?)) =
        some (g.nodes.zip (g.moves.zip g.weights)) := by
  have hmoves := h.nodes_length.trans h.moves_length.symm
  have hweights := h.nodes_length.trans h.weights_length.symm
  refine mapM_eq_some_iff.mpr (List.ext_getElem ?_ fun slot hslot _ => ?_)
  · simp [← hmoves, ← hweights]
  · have hslot : slot < g.nodes.length := by simpa using hslot
    simp [hmoves ▸ hslot, hweights ▸ hslot]

/-- The slots of an attached goal refer to nodes, and there is a tally for each of them. -/
theorem tally?_eq_some (h : g.Attached pool.size) {tallies : Array (Tally α)}
    (hsize : tallies.size = pool.size) : g.tally? tallies = some (g.tally tallies) := by
  rw [tally?, h.slots?_eq_some, Option.bind_eq_bind, Option.bind_some, tally]
  have hslots : ∀ slot ∈ g.nodes.zip (g.moves.zip g.weights), slot.1 < tallies.size :=
    fun slot hslot => hsize ▸ h.nodes_lt slot.1 (List.of_mem_zip hslot).1
  generalize g.nodes.zip (g.moves.zip g.weights) = slots at hslots ⊢
  clear hsize
  induction slots generalizing tallies with
  | nil => rfl
  | cons slot slots ih =>
    obtain ⟨i, move, weight⟩ := slot
    rw [List.forall_mem_cons] at hslots
    simp only [List.foldlM_cons, List.foldl_cons, modify?_eq_some hslots.1, Option.bind_eq_bind,
      Option.bind_some]
    exact ih fun slot hslot => by simpa using hslots.2 slot hslot

end Attached
end Goal

/-! ## Binders -/

omit [Scalar α] in
/-- The geometry at the positions of the binder's nodes, whose faces refer to them only. -/
def Binder.bind? (pool : Pool α) (b : Binder α) : Option (BoundGeometry α) := do
  let current ← pool.positions? b.nodes
  match b.kind with
  | .points => return .points current
  | .polyline closed => return .polyline current closed
  | .mesh faces => do
    let _ ← faces.mapM (corners? current)
    return .mesh current faces

theorem Binder.Attached.bind?_eq_some {pool : Pool α} {b : Binder α} (h : b.Attached pool.size) :
    b.bind? pool = some (b.bind pool) := by
  have hlen : (pool.positions b.nodes).length = b.starts.length :=
    (List.length_map ..).trans h.nodes_length
  have hsound := h.sound
  rw [bind?, Pool.positions?_eq_some h.nodes_lt, Option.bind_eq_bind, Option.bind_some, bind]
  unfold Binder.Sound at hsound
  split at hsound
  next faces hkind =>
    have hcorners := mapM_eq_some_map fun f hf => corners?_eq_some (hlen ▸ hsound f hf)
    simp only [hkind, hcorners, Option.bind_eq_bind, Option.bind_some]
    rfl
  next hkind => simp only [hkind]; rfl
  next hkind => simp only [hkind]; rfl

/-! ## Solvers -/

namespace Solver

/-- The requests of all goals, by node. -/
def collect? (s : Solver α) : Option (Array (Tally α)) :=
  s.goals.toList.foldlM (fun tallies g => g.tally? tallies) (s.tallies.map fun _ => Tally.zero)

/-- The pull of the pointer on the node that it holds. -/
def pull? (s : Solver α) (tallies : Array (Tally α)) : Option (Array (Tally α)) :=
  if s.params.pointerPull then
    match s.interaction.target s.nodes with
    | some (i, target) => do
      let node ← s.nodes[i]?
      modify? tallies i (Tally.add (target - node.position) handleWeight)
    | none => some tallies
  else some tallies

/-- The solver with the answers of all goals. -/
def compute? (s : Solver α) : Option (Solver α) := do
  return { s with goals := (← s.goals.toList.mapM (Goal.compute? s.nodes)).toArray }

/-- One iteration, with every lookup and every write checked. -/
def iterate? (s : Solver α) : Option (Solver α) := do
  let s ← s.drain.drift.compute?
  let tallies ← s.pull? (← s.collect?)
  return { s.moveNodes tallies with iteration := s.iteration + 1 }

/-- What the goals report, in order. -/
def readings? (s : Solver α) : Option (List (GoalKind × List (Reading α))) :=
  s.goals.toList.mapM fun g => do return (g.kind, ← g.readings? s.nodes)

/-- The geometry of all binders at the nodes that they refer to. -/
def geometry? (s : Solver α) : Option (List (BoundGeometry α)) :=
  s.binders.toList.mapM (Binder.bind? s.nodes)

namespace WellFormed

variable {s : Solver α}

theorem collect?_eq_some (h : s.WellFormed) : s.collect? = some s.collect := by
  rw [collect?, collect, ← Array.foldl_toList]
  have hgoals : ∀ g ∈ s.goals.toList, g.Attached s.nodes.size :=
    fun g hg => h.goals_attached g (Array.mem_toList_iff.mp hg)
  have hsize : (s.tallies.map fun _ => (Tally.zero : Tally α)).size = s.nodes.size :=
    Array.size_map.trans h.tallies_size
  generalize s.tallies.map (fun _ => (Tally.zero : Tally α)) = tallies at hsize ⊢
  generalize s.goals.toList = goals at hgoals ⊢
  induction goals generalizing tallies with
  | nil => rfl
  | cons g goals ih =>
    rw [List.forall_mem_cons] at hgoals
    rw [List.foldlM_cons, hgoals.1.tally?_eq_some hsize, Option.bind_eq_bind, Option.bind_some,
      List.foldl_cons]
    exact ih _ ((g.size_tally tallies).trans hsize) hgoals.2

theorem pull?_eq_some (h : s.WellFormed) {tallies : Array (Tally α)}
    (hsize : tallies.size = s.nodes.size) : s.pull? tallies = some (s.pull tallies) := by
  unfold pull? pull
  split
  · cases htarget : s.interaction.target s.nodes with
    | none => rfl
    | some pulled =>
      obtain ⟨i, target⟩ := pulled
      have hi : i < s.nodes.size := h.holds i (Interaction.target_eq_some_iff.mp htarget).1
      simp only [Array.getElem?_eq_getElem hi, Option.bind_eq_bind, Option.bind_some,
        modify?_eq_some (hsize ▸ hi), Pool.position, Option.map_some, Option.getD_some]
  · rfl

theorem compute?_eq_some (h : s.WellFormed) : s.compute? = some s.compute := by
  have hgoals : s.goals.toList.mapM (Goal.compute? s.nodes) =
      some (s.goals.toList.map (Goal.compute s.nodes)) :=
    mapM_eq_some_map fun g hg => (h.goals_attached g (Array.mem_toList_iff.mp hg)).compute?_eq_some
  rw [Solver.compute?, hgoals, Option.bind_eq_bind, Option.bind_some, Solver.compute,
    ← Array.toList_map]
  rfl

/-- Each phase leaves the solver well-formed for the next one. -/
theorem iterate?_eq_some (h : s.WellFormed) : s.iterate? = some s.iterate := by
  have hdrifted := h.drain.drift
  have hcomputed := hdrifted.compute
  have hsize : s.drain.drift.compute.collect.size = s.drain.drift.compute.nodes.size :=
    (size_collect _).trans hcomputed.tallies_size
  simp only [iterate?, hdrifted.compute?_eq_some, hcomputed.collect?_eq_some,
    hcomputed.pull?_eq_some hsize, Option.bind_eq_bind, Option.bind_some]
  rfl

theorem readings?_eq_some (h : s.WellFormed) : s.readings? = some s.readings :=
  mapM_eq_some_map fun g hg => by
    rw [(h.goals_attached g (by simpa using hg)).readings?_eq_some]
    rfl

theorem geometry?_eq_some (h : s.WellFormed) : s.geometry? = some s.geometry :=
  mapM_eq_some_map fun b hb => (h.binders_attached b (by simpa using hb)).bind?_eq_some

end WellFormed

/-- Whatever operations led to a solver, its lists agree in length, its places are those of nodes,
and nothing that it computes leaves a list. -/
theorem Reachable.within_lists {s : Solver α} (h : s.Reachable) :
    s.WellFormed ∧ s.iterate? = some s.iterate ∧ s.readings? = some s.readings ∧
      s.geometry? = some s.geometry :=
  ⟨h.wellFormed, h.wellFormed.iterate?_eq_some, h.wellFormed.readings?_eq_some,
    h.wellFormed.geometry?_eq_some⟩

theorem within_lists_anchored :
    anchored.Reachable ∧ anchored.WellFormed ∧ anchored.iterate? = some anchored.iterate ∧
      anchored.readings? = some anchored.readings ∧ anchored.geometry? = some anchored.geometry :=
  ⟨reachable_anchored, Reachable.within_lists reachable_anchored⟩

end Solver
end Relaxation
