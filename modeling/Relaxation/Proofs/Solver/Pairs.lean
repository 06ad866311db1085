import Mathlib.Data.List.Nodup
import Relaxation.Proofs.Goal.Momentum
import Relaxation.Proofs.Solver.Reachable
import Relaxation.Proofs.Solver.Request

/-!
# Pairs of nodes

When every node stands in one slot of one goal for pairs, its only request is the move of that slot.
The two ends of a pair are asked for opposite moves, so they come to the same decisions: whether to
move at all, whether the move opposes the velocity, and by what to slow down. In exact arithmetic
their velocities stay opposite and their midpoint stays where it was, through any run without a pull
of the pointer (`Solver.FreeRun.keeps_midpoints`).
-/

namespace Relaxation

/-! ## Opposite nodes -/

namespace Node

/-- Opposite tallies send nodes of opposite velocities opposite ways. -/
theorem move_opposite {n m : Node ℝ} (hvelocity : n.velocity = -m.velocity) {t u : Tally ℝ}
    (hmove : t.move = -u.move) (hweight : t.weight = u.weight) (params : Params ℝ) :
    (n.move params t).velocity = -(m.move params u).velocity ∧
      (n.move params t).position + (m.move params u).position = n.position + m.position := by
  have hstep : t.move / t.weight = -(u.move / u.weight) := by
    rw [hmove, hweight, Vec3.div_real, Vec3.div_real, smul_neg]
  have hdot : n.velocity.dot (t.move / t.weight) = m.velocity.dot (u.move / u.weight) := by
    rw [hvelocity, hstep]
    simp only [Vec3.dot, Vec3.neg_x, Vec3.neg_y, Vec3.neg_z, neg_mul_neg]
  unfold move
  dsimp only
  rw [hdot, hstep, hweight, hvelocity]
  split
  · split
    · exact ⟨hvelocity, rfl⟩
    · exact ⟨neg_zero.symm, rfl⟩
  · refine ⟨?_, by rw [add_add_add_comm, neg_add_cancel, add_zero]⟩
    split
    · split
      · rw [Vec3.mul_real, Vec3.mul_real, ← smul_neg, neg_add]
      · rw [neg_add]
    · rfl

theorem iterate_opposite {n m : Node ℝ} (hvelocity : n.velocity = -m.velocity) (params : Params ℝ)
    (move : Vec3 ℝ) (weight : ℝ) :
    (n.iterate params [⟨move, weight⟩]).velocity =
        -(m.iterate params [⟨-move, weight⟩]).velocity ∧
      (n.iterate params [⟨move, weight⟩]).position +
        (m.iterate params [⟨-move, weight⟩]).position = n.position + m.position := by
  have hmove : (Tally.zero.addAll [⟨move, weight⟩] : Tally ℝ).move =
      -(Tally.zero.addAll [⟨-move, weight⟩] : Tally ℝ).move := by
    simp [Tally.zero, Tally.add, Vec3.mul_real]
  unfold iterate
  split
  · obtain ⟨hvel, hpos⟩ := move_opposite (n := n.drift) (m := m.drift) hvelocity hmove rfl params
    refine ⟨hvel, hpos.trans ?_⟩
    rw [drift, drift, hvelocity, add_add_add_comm, neg_add_cancel, add_zero]
  · exact move_opposite hvelocity hmove rfl params

end Node

/-! ## Nodes in one slot -/

namespace Solver

section

variable {α : Type} [Scalar α]

/-- A node in one slot only is asked for nothing but what that slot asks for. -/
theorem WellFormed.requests_eq_singleton {s : Solver α} (h : s.WellFormed)
    (hnodup : (s.goals.toList.flatMap Goal.nodes).Nodup) {g : Goal α} (hg : g ∈ s.goals)
    {slot i : Nat} {move : Vec3 α} {weight : α} (hnode : g.nodes[slot]? = some i)
    (hmove : g.moves[slot]? = some move) (hweight : g.weights[slot]? = some weight)
    (hpull : s.pullRequest i = none) : s.requests i = [⟨move, weight⟩] := by
  -- All slots in a row have the nodes as keys, each of which occurs once.
  let slots (g : Goal α) := g.nodes.zip (g.moves.zip g.weights)
  have hnodes : (s.goals.toList.flatMap slots).map Prod.fst = s.goals.toList.flatMap Goal.nodes := by
    rw [List.map_flatMap]
    refine List.flatMap_congr fun g hg => List.map_fst_zip ?_
    have hattached := h.goals_attached g (Array.mem_toList_iff.mp hg)
    rw [List.length_zip, hattached.moves_length, hattached.weights_length, hattached.nodes_length,
      Nat.min_self]
  have hmem : (i, move, weight) ∈ s.goals.toList.flatMap slots := by
    refine List.mem_flatMap.mpr ⟨g, Array.mem_toList_iff.mpr hg, ?_⟩
    refine List.mem_of_getElem? (i := slot) ?_
    rw [List.getElem?_zip_eq_some, List.getElem?_zip_eq_some]
    exact ⟨hnode, hmove, hweight⟩
  rw [← hnodes] at hnodup
  have hone := filterMap_key_eq_singleton hnodup hmem fun (move, weight) =>
    (⟨move, weight⟩ : Request α)
  rw [requests, hpull, Option.toList_none, List.append_nil, ← hone, List.filterMap_flatMap]
  rfl

/-- The kinds of the goals, with the nodes in their slots. -/
def layout (s : Solver α) : List (GoalKind × List Nat) :=
  s.goals.toList.map fun g => (g.kind, g.nodes)

/-- All goals are for pairs, and every node stands in one slot of one goal. -/
structure Paired (s : Solver α) : Prop where
  onPairs : ∀ g ∈ s.layout, g.1.OnPairs
  once : (s.layout.flatMap Prod.snd).Perm (List.range s.nodes.size)

/-- The nodes are the two ends of a pair of some goal. -/
def Pair (s : Solver α) (i j : Nat) : Prop :=
  ∃ g ∈ s.layout, ∃ k : Nat, g.2[2 * k]? = some i ∧ g.2[2 * k + 1]? = some j

/-- The pointer pulls at no node in the next iteration. -/
def Unpulled (s : Solver α) : Prop := ∀ i, s.computed.pullRequest i = none

theorem unpulled_of_pointerPull {s : Solver α} (h : s.params.pointerPull = false) :
    s.Unpulled := by
  intro i
  rw [pullRequest, params_computed, h]
  rfl

/-- The solvers that iterating leads to while the pointer does not pull, with changes of goals and
settings and with commands in between. -/
inductive FreeRun (s : Solver α) : Solver α → Prop
  | start : FreeRun s s
  | iterate {s' : Solver α} : FreeRun s s' → s'.Unpulled → FreeRun s s'.iterate
  | change {s' s'' : Solver α} {place : Nat} {a : Amendment α} {weight : Option α} :
    FreeRun s s' → s'.changeGoal place a weight = some (.ok s'') → FreeRun s s''
  | configure {s' : Solver α} (params : Params α) : FreeRun s s' → FreeRun s { s' with params }
  | send {s' : Solver α} (command : Command α) : FreeRun s s' → FreeRun s (s'.send command)

theorem layout_computed (s : Solver α) : s.computed.layout = s.layout := by
  rw [layout, goals_computed, Array.toList_map, List.map_map]
  rfl

theorem layout_iterate (s : Solver α) : s.iterate.layout = s.layout := layout_computed s

/-- Kinds and nodes are out of reach of a change. -/
theorem layout_changeGoal {s s' : Solver α} {place : Nat} {a : Amendment α} {weight : Option α}
    (h : s.changeGoal place a weight = some (.ok s')) : s'.layout = s.layout := by
  obtain ⟨g, g', hg, _, hchange, rfl⟩ := changeGoal_eq_ok_iff.mp h
  obtain ⟨aim, haim, _, rfl⟩ := Goal.change_eq_ok_iff.mp hchange
  have hsame : (aim.kind, g.nodes) = (g.kind, g.nodes) := by
    rw [Aim.kind_amend haim]
    rfl
  rw [layout, layout, ← Array.toList_map, ← Array.toList_map]
  exact congrArg Array.toList (map_setIfInBounds hg hsame)

omit [Scalar α] in
theorem Paired.congr {s s' : Solver α} (h : s.Paired) (hlayout : s'.layout = s.layout)
    (hsize : s'.nodes.size = s.nodes.size) : s'.Paired where
  onPairs := hlayout ▸ h.onPairs
  once := by
    rw [hlayout, hsize]
    exact h.once

/-- A change that a goal for pairs accepts brings in no shape. -/
theorem Paired.amendment_bounded {s s' : Solver α} (h : s.Paired) {place : Nat} {a : Amendment α}
    {weight : Option α} (hchange : s.changeGoal place a weight = some (.ok s')) : a.Bounded := by
  obtain ⟨g, _, hg, hkind, _, _⟩ := changeGoal_eq_ok_iff.mp hchange
  have hmem : (g.kind, g.nodes) ∈ s.layout :=
    List.mem_map.mpr ⟨g, Array.mem_toList_iff.mpr (Array.mem_of_getElem? hg), rfl⟩
  have honPairs : a.kind.OnPairs := hkind ▸ h.onPairs _ hmem
  cases a with
  | onLine _ | onPlane _ | onCurve _ | onSurface _ => cases honPairs
  | _ => trivial

/-- A run keeps the places in the solver, and the layout of the goals. -/
theorem FreeRun.keeps_layout {s s' : Solver α} (hrun : s.FreeRun s') (h : s.WellFormed)
    (hpaired : s.Paired) :
    s'.WellFormed ∧ s'.layout = s.layout ∧ s'.nodes.size = s.nodes.size := by
  induction hrun with
  | start => exact ⟨h, rfl, rfl⟩
  | @iterate t _ _ ih =>
    obtain ⟨hwf, hlayout, hsize⟩ := ih
    exact ⟨hwf.iterate, (layout_iterate t).trans hlayout, (size_nodes_iterate t).trans hsize⟩
  | change _ hchange ih =>
    obtain ⟨hwf, hlayout, hsize⟩ := ih
    have hbounded := (hpaired.congr hlayout hsize).amendment_bounded hchange
    refine ⟨hwf.changeGoal hbounded hchange, (layout_changeGoal hchange).trans hlayout, ?_⟩
    obtain ⟨_, _, _, _, _, rfl⟩ := changeGoal_eq_ok_iff.mp hchange
    exact hsize
  | configure _ _ ih =>
    obtain ⟨hwf, hlayout, hsize⟩ := ih
    exact ⟨{ hwf with }, hlayout, hsize⟩
  | send command _ ih =>
    obtain ⟨hwf, hlayout, hsize⟩ := ih
    exact ⟨hwf.send command, hlayout, hsize⟩

end

/-! ## Runs -/

section

variable {s s' : Solver ℝ} {i j : Nat} {total : Vec3 ℝ}

/-- The nodes have opposite velocities, and positions of the given sum. -/
def Opposed (total : Vec3 ℝ) (i j : Nat) (s : Solver ℝ) : Prop :=
  ∃ n m, s.nodes[i]? = some n ∧ s.nodes[j]? = some m ∧ n.velocity = -m.velocity ∧
    n.position + m.position = total

/-- The two ends of a pair are asked for opposite moves, with equal weights. -/
theorem WellFormed.requests_pair (h : s.WellFormed) (hpaired : s.Paired) (hpull : s.Unpulled)
    (hpair : s.Pair i j) : ∃ move weight,
      s.computed.requests i = [⟨move, weight⟩] ∧ s.computed.requests j = [⟨-move, weight⟩] := by
  obtain ⟨entry, hentry, k, hi, hj⟩ := hpair
  have hkind := hpaired.onPairs entry hentry
  rw [← layout_computed] at hentry
  obtain ⟨g, hg, rfl⟩ := List.mem_map.mp hentry
  rw [Array.mem_toList_iff] at hg
  have hattached := h.computed.goals_attached g hg
  have hopposed : g.PairsOpposed := by
    rw [goals_computed] at hg
    obtain ⟨g₀, hg₀, rfl⟩ := Array.mem_map.mp hg
    have hattached₀ := h.goals_attached g₀ hg₀
    exact hattached₀.toSound.pairsOpposed hkind hattached₀.nodes_length _
  have hslot : 2 * k + 1 < g.nodeCount :=
    hattached.nodes_length ▸ (List.getElem?_eq_some_iff.mp hj).1
  have hnodup : (s.computed.goals.toList.flatMap Goal.nodes).Nodup := by
    have hlayout : (s.computed.layout.flatMap Prod.snd).Nodup := by
      rw [layout_computed]
      exact hpaired.once.nodup_iff.mpr List.nodup_range
    rwa [layout, List.flatMap_map] at hlayout
  obtain ⟨move, weight, hmove, hmove', hweight, hweight'⟩ := hopposed k hslot
  exact ⟨move, weight,
    h.computed.requests_eq_singleton hnodup hg hi hmove hweight (hpull i),
    h.computed.requests_eq_singleton hnodup hg hj hmove' hweight' (hpull j)⟩

/-- Opposite moves of one weight keep the midpoint, with or without momentum. -/
theorem Opposed.iterate (hopposed : s.Opposed total i j) (h : s.WellFormed) (hpaired : s.Paired)
    (hpull : s.Unpulled) (hpair : s.Pair i j) : s.iterate.Opposed total i j := by
  obtain ⟨n, m, hn, hm, hvelocity, hsum⟩ := hopposed
  obtain ⟨move, weight, hi, hj⟩ := h.requests_pair hpaired hpull hpair
  obtain ⟨hvelocity', hsum'⟩ := Node.iterate_opposite hvelocity s.params move weight
  refine ⟨_, _, ?_, ?_, hvelocity', hsum'.trans hsum⟩
  · rw [h.getElem?_iterate, hn, hi, Option.map_some]
  · rw [h.getElem?_iterate, hm, hj, Option.map_some]

/-- By induction on the run; a change keeps which nodes are paired. -/
theorem FreeRun.opposed (hrun : s.FreeRun s') (h : s.WellFormed) (hpaired : s.Paired)
    (hpair : s.Pair i j) (hopposed : s.Opposed total i j) : s'.Opposed total i j := by
  induction hrun with
  | start => exact hopposed
  | iterate hrun hpull ih =>
    obtain ⟨hwf, hlayout, hsize⟩ := hrun.keeps_layout h hpaired
    refine ih.iterate hwf (hpaired.congr hlayout hsize) hpull ?_
    rwa [Pair, hlayout]
  | change _ hchange ih =>
    obtain ⟨_, _, _, _, _, rfl⟩ := changeGoal_eq_ok_iff.mp hchange
    exact ih
  | configure _ _ ih => exact ih
  | send _ _ ih => exact ih

theorem Pair.lt_size (hpaired : s.Paired) (hpair : s.Pair i j) :
    i < s.nodes.size ∧ j < s.nodes.size := by
  obtain ⟨g, hg, k, hi, hj⟩ := hpair
  have hlt : ∀ i ∈ g.2, i < s.nodes.size := fun i hi =>
    List.mem_range.mp (hpaired.once.mem_iff.mp (List.mem_flatMap.mpr ⟨g, hg, hi⟩))
  exact ⟨hlt i (List.mem_of_getElem? hi), hlt j (List.mem_of_getElem? hj)⟩

/-- From rest, the two ends of a pair keep opposite velocities and their midpoint, whatever becomes
of the parameters and weights of the goals and of the settings. -/
theorem FreeRun.keeps_midpoints (hrun : s.FreeRun s') (h : s.WellFormed) (hpaired : s.Paired)
    (hrest : ∀ n ∈ s.nodes, n.velocity = 0) (hpair : s.Pair i j) :
    ∃ n m n' m', s.nodes[i]? = some n ∧ s.nodes[j]? = some m ∧
      s'.nodes[i]? = some n' ∧ s'.nodes[j]? = some m' ∧
      n'.velocity = -m'.velocity ∧ n'.position + m'.position = n.position + m.position := by
  obtain ⟨hi, hj⟩ := hpair.lt_size hpaired
  have hn := Array.getElem?_eq_getElem hi
  have hm := Array.getElem?_eq_getElem hj
  have hopposed : s.Opposed (s.nodes[i].position + s.nodes[j].position) i j := by
    refine ⟨_, _, hn, hm, ?_, rfl⟩
    rw [hrest _ (Array.getElem_mem hi), hrest _ (Array.getElem_mem hj), neg_zero]
  obtain ⟨n', m', hn', hm', hvelocity, hsum⟩ := hrun.opposed h hpaired hpair hopposed
  exact ⟨_, _, n', m', hn, hm, hn', hm', hvelocity, hsum⟩

/-- Two nodes at rest, one of them at the origin, that a goal keeps at a distance. -/
noncomputable def segment (rest : ℝ) (p : Vec3 ℝ) : Solver ℝ :=
  { new Params.default with
    nodes := #[.atRest 0, .atRest p]
    tallies := #[Tally.zero, Tally.zero]
    goals := #[{ Goal.ofAim (.length rest) [0, p] 1 with nodes := [0, 1] }] }

theorem wellFormed_segment (rest : ℝ) (p : Vec3 ℝ) : (segment rest p).WellFormed where
  tallies_size := rfl
  goals_attached g hg := by
    obtain rfl := List.mem_singleton.mp (Array.mem_toList_iff.mpr hg)
    exact ⟨⟨rfl, rfl, rfl, usable_real_iff.mpr zero_le_one⟩, rfl, by simp [segment]⟩
  binders_attached := by simp [segment, new]
  holds := by simp [segment, new, Interaction.empty, Interaction.Holds]

theorem paired_segment (rest : ℝ) (p : Vec3 ℝ) : (segment rest p).Paired where
  onPairs g hg := by
    obtain rfl := List.mem_singleton.mp hg
    trivial
  once := .refl _

theorem velocity_segment {rest : ℝ} {p : Vec3 ℝ} : ∀ n ∈ (segment rest p).nodes, n.velocity = 0 := by
  simp [segment, Node.atRest]

theorem changeGoal_segment {rest : ℝ} (h : 0 ≤ rest) (old : ℝ) (p : Vec3 ℝ) :
    (segment old p).changeGoal 0 (.length (some rest)) none = some (.ok (segment rest p)) := by
  have hamend : (Aim.length old).amend (.length (some rest)) = .ok (.length rest) :=
    Checked.check_bind_eq_ok.mpr
      ⟨requireNonNegative_eq_ok_iff.mpr (usable_real_iff.mpr h), rfl⟩
  exact changeGoal_eq_ok_iff.mpr ⟨_, _, rfl, rfl,
    Goal.change_eq_ok_iff.mpr ⟨_, hamend, fun _ hw => (Option.not_mem_none _ hw).elim, rfl⟩, rfl⟩

/-- Two nodes that a change of their goal drives apart, first with momentum and then without. -/
theorem FreeRun.keeps_midpoints_apart :
    let s := segment 1 Vec3.xAxis
    let apart := (segment 3 Vec3.xAxis).iterate
    let params : Params ℝ := { Params.default with momentum := false }
    let s' := Solver.iterate { apart with params }
    (s.FreeRun s' ∧ s.WellFormed ∧ s.Paired ∧ (∀ n ∈ s.nodes, n.velocity = 0) ∧ s.Pair 0 1) ∧
      ∃ n m n' m' : Node ℝ, s.nodes[0]? = some n ∧ s.nodes[1]? = some m ∧
        s'.nodes[0]? = some n' ∧ s'.nodes[1]? = some m' ∧
        n'.velocity = -m'.velocity ∧ n'.position + m'.position = n.position + m.position := by
  intro s apart params s'
  have hchange := changeGoal_segment (show (0 : ℝ) ≤ 3 by norm_num) 1 Vec3.xAxis
  have hrun : s.FreeRun s' :=
    .iterate (.configure params (.iterate (.change .start hchange) (unpulled_of_pointerPull rfl)))
      (unpulled_of_pointerPull rfl)
  have hwf := wellFormed_segment 1 Vec3.xAxis
  have hpaired := paired_segment 1 Vec3.xAxis
  have hpair : s.Pair 0 1 := ⟨_, List.mem_singleton_self _, 0, rfl, rfl⟩
  exact ⟨⟨hrun, hwf, hpaired, velocity_segment, hpair⟩,
    hrun.keeps_midpoints hwf hpaired velocity_segment hpair⟩

end

end Solver
end Relaxation
