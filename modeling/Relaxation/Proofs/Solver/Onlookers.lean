import Relaxation.Proofs.Geometry.Vec3
import Relaxation.Proofs.Scenario
import Relaxation.Proofs.Solver.Independence

/-!
# Binders look on

A solver with more nodes at the end of its pool, to which no goal refers, moves the others as
without them (`Solver.Widens.iterateN`). Binders bring in such nodes only: they are at rest and stay
so (`Solver.Widens.getElem?_iterateN`), and in exact arithmetic they carry no energy, so that an
execution ends alike (`Solver.executeFrom_report_eq`). A scenario runs as without its binders
(`Scenario.binders_look_on`).
-/

namespace Relaxation

variable {α : Type} [Scalar α]

/-! ## Nodes that nobody asks to move -/

namespace Node

/-- What an iteration makes of a node without requests. -/
def idle (params : Params α) (n : Node α) : Node α :=
  (if params.momentum then n.drift else n).move params Tally.zero

variable (hzero : ((0 : α) == 0) = true)
include hzero

theorem idle_eq (params : Params α) (n : Node α) :
    n.idle params = if params.momentum then n.drift else { n with velocity := 0 } := by
  have hweight : ((Tally.zero : Tally α).weight == 0) = true := hzero
  unfold idle move
  rw [if_pos hweight]
  split <;> rfl

/-- A node at rest stays at rest, and nothing but zero is added to its position. -/
theorem repeat_idle {params : Params α} {same : Vec3 α → Vec3 α → Prop} (hrefl : ∀ p, same p p)
    (hadd : ∀ p q, same p q → same (p + 0) q) (p : Vec3 α) (n : Nat) :
    (Nat.repeat (idle params) n (atRest p)).start = p ∧
      (Nat.repeat (idle params) n (atRest p)).velocity = 0 ∧
      same (Nat.repeat (idle params) n (atRest p)).position p := by
  induction n with
  | zero => exact ⟨rfl, rfl, hrefl p⟩
  | succ n ih =>
    obtain ⟨hstart, hvelocity, hposition⟩ := ih
    rw [Nat.repeat, idle_eq hzero]
    split
    · refine ⟨hstart, hvelocity, ?_⟩
      rw [drift, hvelocity]
      exact hadd _ _ hposition
    · exact ⟨hstart, rfl, hposition⟩

end Node

namespace Solver

/-! ## A solver that nobody interacts with -/

/-- Without commands there is nothing to take. -/
theorem drain_of_untouched {s : Solver α} (h : s.interaction = Interaction.empty) :
    s.drain = s := by
  obtain ⟨params, nodes, tallies, goals, binders, iteration, interaction⟩ := s
  obtain rfl : interaction = Interaction.empty := h
  rfl

theorem pullRequest_of_untouched {s : Solver α} (h : s.interaction = Interaction.empty) (i : Nat) :
    s.pullRequest i = none := by
  unfold pullRequest
  rw [h]
  split <;> rfl

/-! ## More nodes at the end of the pool -/

/-- The second solver is the first one with maybe more nodes, to which no goal refers, and with
binders of its own. Nobody interacts with either of them. -/
structure Widens (s₀ s : Solver α) : Prop where
  params_eq : s.params = s₀.params
  goals_eq : s.goals = s₀.goals
  node_eq : ∀ i < s₀.nodes.size, s.nodes[i]? = s₀.nodes[i]?
  untouched₀ : s₀.interaction = Interaction.empty
  untouched : s.interaction = Interaction.empty
  wellFormed₀ : s₀.WellFormed
  wellFormed : s.WellFormed

namespace Widens

variable {s₀ s : Solver α}

theorem drift (h : s₀.Widens s) : s₀.drift.Widens s.drift where
  params_eq := by rw [params_drift, params_drift, h.params_eq]
  goals_eq := by rw [goals_drift, goals_drift, h.goals_eq]
  node_eq i hi := by
    rw [← nodes_computed, size_nodes_computed] at hi
    rw [nodes_drift, nodes_drift, h.params_eq]
    split
    · rw [Array.getElem?_map, Array.getElem?_map, h.node_eq i hi]
    · exact h.node_eq i hi
  untouched₀ := by rw [interaction_drift, h.untouched₀]
  untouched := by rw [interaction_drift, h.untouched]
  wellFormed₀ := h.wellFormed₀.drift
  wellFormed := h.wellFormed.drift

/-- A goal reads nodes that both solvers have. -/
theorem compute (h : s₀.Widens s) : s₀.compute.Widens s.compute := by
  refine { h with
    goals_eq := ?_
    wellFormed₀ := h.wellFormed₀.compute
    wellFormed := h.wellFormed.compute }
  rw [Solver.compute, Solver.compute, h.goals_eq]
  refine Array.map_congr_left fun g hg => Goal.compute_congr (List.map_congr_left fun i hi => ?_)
  rw [Pool.position, Pool.position, h.node_eq i ((h.wellFormed₀.goals_attached g hg).nodes_lt i hi)]

theorem computed (h : s₀.Widens s) : s₀.computed.Widens s.computed := by
  rw [Solver.computed, Solver.computed, drain_of_untouched h.untouched₀,
    drain_of_untouched h.untouched]
  exact h.drift.compute

theorem requests_eq (h : s₀.Widens s) (i : Nat) : s.requests i = s₀.requests i := by
  rw [requests, requests, h.goals_eq, pullRequest_of_untouched h.untouched₀,
    pullRequest_of_untouched h.untouched]

/-- No goal refers to a node that only binders look at. -/
theorem requests_eq_nil (h : s₀.Widens s) {i : Nat} (hi : s₀.nodes.size ≤ i) :
    s.requests i = [] := by
  rw [requests, h.goals_eq, pullRequest_of_untouched h.untouched, Option.toList_none,
    List.append_nil, List.flatMap_eq_nil_iff]
  intro g hg
  refine Goal.requests_eq_nil fun hmem => ?_
  have hattached := h.wellFormed₀.goals_attached g (Array.mem_toList_iff.mp hg)
  exact Nat.not_lt_of_le hi (hattached.nodes_lt i hmem)

/-- The nodes of the first solver do not notice the others. -/
theorem iterate (h : s₀.Widens s) : s₀.iterate.Widens s.iterate := by
  have hcomputed := h.computed
  refine { hcomputed with
    node_eq := fun i hi => ?_
    wellFormed₀ := h.wellFormed₀.iterate
    wellFormed := h.wellFormed.iterate }
  have hsize : s₀.iterate.nodes.size = s₀.computed.nodes.size := Array.size_mapIdx
  rw [hsize] at hi
  rw [getElem?_nodes_iterate h.wellFormed, getElem?_nodes_iterate h.wellFormed₀,
    hcomputed.node_eq i hi, hcomputed.params_eq, hcomputed.requests_eq]

theorem iterateN (h : s₀.Widens s) (n : Nat) : (s₀.iterateN n).Widens (s.iterateN n) := by
  induction n with
  | zero => exact h
  | succ n ih => exact ih.iterate

end Widens

/-! ### The nodes at the end -/

namespace Widens

variable {s₀ s : Solver α}

/-- A node that only the second solver has goes on without requests. -/
theorem getElem?_iterate (h : s₀.Widens s) {i : Nat} (hi : s₀.nodes.size ≤ i) :
    s.iterate.nodes[i]? = s.nodes[i]?.map (Node.idle s.params) := by
  have hsize : s₀.computed.nodes.size ≤ i := by rwa [size_nodes_computed]
  rw [h.wellFormed.getElem?_iterate, h.computed.requests_eq_nil hsize]
  rfl

/-- A node that no goal refers to drifts by itself. -/
theorem getElem?_iterateN (h : s₀.Widens s) {i : Nat} (hi : s₀.nodes.size ≤ i) (n : Nat) :
    (s.iterateN n).nodes[i]? = s.nodes[i]?.map (Nat.repeat (Node.idle s.params) n) := by
  induction n with
  | zero => exact Option.map_id'.symm
  | succ n ih =>
    have hsize : (s₀.iterateN n).nodes.size ≤ i := by rwa [size_nodes_iterateN]
    have hstep := (h.iterateN n).getElem?_iterate hsize
    rw [params_iterateN, ih, Option.map_map] at hstep
    exact hstep

end Widens

/-! ### Energy -/

/-- The nodes that only the second solver has are at rest. -/
def Rests (s₀ s : Solver α) : Prop :=
  ∀ (i : Nat) (n : Node α), s₀.nodes.size ≤ i → s.nodes[i]? = some n → n.velocity = 0

variable {s₀ s : Solver α}

theorem Rests.iterate (hzero : ((0 : α) == 0) = true) (h : s₀.Widens s) (hrests : s₀.Rests s) :
    s₀.iterate.Rests s.iterate := by
  intro i n hi hn
  rw [size_nodes_iterate] at hi
  rw [h.getElem?_iterate hi, Option.map_eq_some_iff] at hn
  obtain ⟨n, hn, rfl⟩ := hn
  rw [Node.idle_eq hzero]
  split
  · exact hrests i n hi hn
  · rfl

/-- Nodes at rest add zeros at the end of the sum. -/
theorem kineticEnergy_eq_of_widens (hadd : ∀ x : α, x + 0 = x) (hmul : (0 : α) * 0 = 0)
    (h : s₀.Widens s) (hrests : s₀.Rests s) : s.kineticEnergy = s₀.kineticEnergy := by
  have htake : s.nodes.toList.take s₀.nodes.size = s₀.nodes.toList := by
    refine List.ext_getElem? fun i => ?_
    rw [List.getElem?_take, Array.getElem?_toList, Array.getElem?_toList]
    split
    case isTrue hi => exact h.node_eq i hi
    case isFalse hi => exact (Array.getElem?_eq_none (Nat.le_of_not_lt hi)).symm
  have hrest : (s.nodes.toList.drop s₀.nodes.size).map Node.kineticEnergy =
      List.replicate (s.nodes.toList.drop s₀.nodes.size).length 0 := by
    refine List.eq_replicate_iff.mpr ⟨List.length_map .., fun e he => ?_⟩
    obtain ⟨n, hn, rfl⟩ := List.mem_map.mp he
    obtain ⟨i, hi⟩ := List.mem_iff_getElem?.mp hn
    rw [List.getElem?_drop, Array.getElem?_toList] at hi
    have hvelocity : n.velocity = ⟨0, 0, 0⟩ := hrests _ n (Nat.le_add_right ..) hi
    rw [Node.kineticEnergy, Vec3.normSq, Vec3.dot, hvelocity, hmul, hadd, hadd]
  have hsum : ∀ (k : Nat) (e : α), (List.replicate k 0).foldl (· + ·) e = e := by
    intro k
    induction k with
    | zero => exact fun e => rfl
    | succ k ih => exact fun e => (ih (e + 0)).trans (hadd e)
  unfold kineticEnergy Pool.kineticEnergy Scalar.sum
  rw [← List.take_append_drop s₀.nodes.size s.nodes.toList, List.map_append, List.foldl_append,
    htake, hrest, hsum]

theorem executeFrom_report_eq (hzero : ((0 : α) == 0) = true) (hadd : ∀ x : α, x + 0 = x)
    (hmul : (0 : α) * 0 = 0) (threshold : α) (fuel done : Nat) (h : s₀.Widens s)
    (hrests : s₀.Rests s) :
    (s.executeFrom threshold done fuel).2 = (s₀.executeFrom threshold done fuel).2 := by
  induction fuel generalizing s₀ s done with
  | zero =>
    rw [executeFrom, executeFrom, kineticEnergy_eq_of_widens hadd hmul h hrests]
  | succ fuel ih =>
    have hrests' := hrests.iterate hzero h
    have henergy := kineticEnergy_eq_of_widens hadd hmul h.iterate hrests'
    rw [executeFrom, executeFrom, henergy]
    split
    · rfl
    · exact ih (done + 1) h.iterate hrests'

/-! ### Binders -/

/-- Binders bring in nodes at rest, and nothing else that an iteration looks at. -/
theorem addBinders_brings (s : Solver α) (bs : List (Binder α)) :
    (s.addBinders bs).params = s.params ∧
      ∃ added : List (Vec3 α),
        (s.addBinders bs).nodes = s.nodes ++ (added.map Node.atRest).toArray := by
  induction bs generalizing s with
  | nil => exact ⟨rfl, [], by simp [addBinders]⟩
  | cons b bs ih =>
    obtain ⟨first, _, hplace⟩ := exists_placeAll_eq s.params.mergeThreshold s b.starts
    have hparams : (s.addBinder b).params = s.params := (congrArg Solver.params hplace :)
    have hnodes : (s.addBinder b).nodes = s.nodes ++ (first.map Node.atRest).toArray :=
      congrArg Solver.nodes hplace
    obtain ⟨ihparams, rest, ihnodes⟩ := ih (s.addBinder b)
    refine ⟨ihparams.trans hparams, first ++ rest, ?_⟩
    refine ihnodes.trans ?_
    simp only [hnodes, Array.append_assoc, List.append_toArray, List.map_append]

/-- Binders add nodes at the end of the pool. -/
theorem widens_addBinders {s : Solver α} (h : s.WellFormed)
    (huntouched : s.interaction = Interaction.empty) {bs : List (Binder α)}
    (hbs : ∀ b ∈ bs, b.Sound) : s.Widens (s.addBinders bs) := by
  obtain ⟨hparams, added, hnodes⟩ := addBinders_brings s bs
  refine ⟨hparams, goals_addBinders s bs, fun i hi => ?_, huntouched,
    (interaction_addBinders s bs).trans huntouched, h, h.addBinders hbs⟩
  rw [hnodes, Array.getElem?_append_left hi]

theorem exists_atRest_of_addBinders {s : Solver α} {bs : List (Binder α)} {i : Nat} {n : Node α}
    (hi : s.nodes.size ≤ i) (hn : (s.addBinders bs).nodes[i]? = some n) :
    ∃ p, n = Node.atRest p := by
  obtain ⟨_, added, hnodes⟩ := addBinders_brings s bs
  rw [hnodes, Array.getElem?_append_right hi, List.getElem?_toArray, List.getElem?_map,
    Option.map_eq_some_iff] at hn
  obtain ⟨p, _, rfl⟩ := hn
  exact ⟨p, rfl⟩

end Solver

/-! ## Scenarios -/

namespace Scenario

theorem interaction_attachAll (s : Solver α) (gs : List (Goal α)) :
    (s.attachAll gs).interaction = s.interaction := by
  induction gs generalizing s with
  | nil => rfl
  | cons g gs ih =>
    exact (ih (s.attach s.params.mergeThreshold g)).trans (Solver.interaction_placeAll ..)

/-- Built without its binders, a scenario has the same goals on the same nodes, and these move the
same way, over any numbers. The nodes that only binders refer to stay at rest where they start, as
far as adding zero leaves numbers the same. Where it does, executions end with the same report. -/
theorem binders_look_on {d : ScenarioDescription α} {x : Scenario α} (h : build d = .ok x) :
    ∃ x₀, build { d with binders := [] } = .ok x₀ ∧ x.execution = x₀.execution ∧
      x.solver.goals = x₀.solver.goals ∧
      (∀ g ∈ x.solver.goals, ∀ i ∈ g.nodes, i < x₀.solver.nodes.size) ∧
      (∀ n, ∀ i < x₀.solver.nodes.size,
        (x.solver.iterateN n).nodes[i]? = (x₀.solver.iterateN n).nodes[i]?) ∧
      (((0 : α) == 0) = true → ∀ same : Vec3 α → Vec3 α → Prop, (∀ p, same p p) →
        (∀ p q, same p q → same (p + 0) q) →
        ∀ (n i : Nat) (node : Node α), x₀.solver.nodes.size ≤ i →
          x.solver.nodes[i]? = some node →
          ∃ node', (x.solver.iterateN n).nodes[i]? = some node' ∧ node'.start = node.start ∧
            node'.velocity = 0 ∧ same node'.position node.start) ∧
      (((0 : α) == 0) = true → (∀ a : α, a + 0 = a) → (0 : α) * 0 = 0 →
        ∀ bounds, (x.solver.execute bounds).2 = (x₀.solver.execute bounds).2) := by
  obtain ⟨gs, bs, hgs, hbs, rfl⟩ := build_eq_ok_iff.mp h
  have hmade := made_bounded_of_mapM_eq_ok hgs
  have hsound := sound_of_mapM_eq_ok hbs
  have hwf := (Solver.wellFormed_new d.solver.normalized).attachAll hmade
  have huntouched := interaction_attachAll (Solver.new d.solver.normalized) gs
  have hwidens := Solver.widens_addBinders hwf huntouched hsound
  refine ⟨_, build_eq_ok_iff.mpr ⟨gs, [], hgs, rfl, rfl⟩, rfl, hwidens.goals_eq, ?_, ?_, ?_, ?_⟩
  · intro g hg i hi
    exact (hwf.goals_attached g (hwidens.goals_eq ▸ hg)).nodes_lt i hi
  · intro n i hi
    exact (hwidens.iterateN n).node_eq i (by rwa [Solver.size_nodes_iterateN])
  · intro hzero same hrefl hadd n i node hi hnode
    obtain ⟨p, rfl⟩ := Solver.exists_atRest_of_addBinders hi hnode
    have hrun := hwidens.getElem?_iterateN hi n
    rw [hnode, Option.map_some] at hrun
    exact ⟨_, hrun, Node.repeat_idle hzero hrefl hadd p n⟩
  · intro hzero hadd hmul bounds
    refine Solver.executeFrom_report_eq hzero hadd hmul _ _ 0 hwidens fun i node hi hnode => ?_
    obtain ⟨p, rfl⟩ := Solver.exists_atRest_of_addBinders hi hnode
    rfl

/-- An anchored node over the reals and a binder of two points, of which one is the node's and the
other starts high above: the solver has a second node for it, which stays, and its run ends
alike. -/
theorem binders_look_on_anchor :
    let d : ScenarioDescription ℝ :=
      { solver := Params.default
        execution := ExecutionBounds.default
        goals := [.anchor 0 (some Vec3.xAxis) 1]
        binders := [.points [0, Vec3.zAxis]] }
    ∃ x x₀, build d = .ok x ∧ build { d with binders := [] } = .ok x₀ ∧
      x.solver.nodes = #[Node.atRest 0, Node.atRest Vec3.zAxis] ∧
      x₀.solver.nodes = #[Node.atRest 0] ∧ x.solver.goals = x₀.solver.goals ∧
      (x.solver.iterateN 5).nodes[0]? = (x₀.solver.iterateN 5).nodes[0]? ∧
      (∃ node, (x.solver.iterateN 5).nodes[1]? = some node ∧ node.velocity = 0 ∧
        node.position = Vec3.zAxis) ∧
      (x.solver.execute d.execution).2 = (x₀.solver.execute d.execution).2 := by
  intro d
  have hgoal : d.goals.mapM GoalDescription.build =
      .ok [Goal.ofAim (.anchor Vec3.xAxis) [0] (1 : ℝ)] := by
    refine Checked.mapM_eq_ok_iff.mpr (congrArg (· :: []) ?_)
    exact Goal.anchor_eq_ok_iff.mpr ⟨rfl, usable_real_iff.mpr zero_le_one, rfl⟩
  obtain ⟨s, hs⟩ : ∃ s : Solver ℝ,
      (Solver.new d.solver.normalized).attachAll [Goal.ofAim (.anchor Vec3.xAxis) [0] 1] = s :=
    ⟨_, rfl⟩
  obtain ⟨x, hx⟩ : ∃ x : Scenario ℝ,
      ⟨s.addBinders [⟨.points, [0, Vec3.zAxis], []⟩], d.execution⟩ = x := ⟨_, rfl⟩
  have hbuild : build d = .ok x := build_eq_ok_iff.mpr ⟨_, _, hgoal, rfl, by rw [hs]; exact hx⟩
  obtain ⟨x₀, hbuild₀, _, hgoals, _, hagree, hrest, hreport⟩ := binders_look_on hbuild
  have hx₀ := Except.ok.inj (hbuild₀.symm.trans
    (build_eq_ok_iff.mpr ⟨_, [], hgoal, rfl, rfl⟩))
  have hnodes₀ : x₀.solver.nodes = #[Node.atRest 0] := by
    rw [hx₀]
    simp [Solver.attachAll, Solver.attach, Solver.placeAll, Solver.place, Solver.new,
      Pool.firstWithin?, Goal.ofAim, Solver.addNode, Solver.addBinders]
  have hfar : ¬(1 : ℝ) < (10 ^ 3)⁻¹ * (10 ^ 3)⁻¹ := by norm_num
  have hnodes : x.solver.nodes = #[Node.atRest 0, Node.atRest Vec3.zAxis] := by
    rw [← hx, ← hs]
    simp [Solver.attachAll, Solver.attach, Solver.placeAll, Solver.place, Solver.new,
      Pool.firstWithin?, Goal.ofAim, Solver.addNode, Solver.addBinders, Solver.addBinder,
      Solver.addBinderWithThreshold, Params.normalized, Params.withDamping,
      Params.withMergeThreshold, Params.default, d, Vec3.distSq, Vec3.normSq, Vec3.dot,
      Node.atRest, Vec3.zAxis, hfar]
  have hsize : x₀.solver.nodes.size = 1 := by rw [hnodes₀]; rfl
  have hzero : ((0 : ℝ) == 0) = true := Scalar.beq_real_iff.mpr rfl
  obtain ⟨node, hnode, _, hvelocity, hposition⟩ := hrest hzero Eq (fun _ => rfl)
    (fun p q hpq => (add_zero p).trans hpq) 5 1 (Node.atRest Vec3.zAxis) hsize.le (by simp [hnodes])
  exact ⟨x, x₀, hbuild, hbuild₀, hnodes, hnodes₀, hgoals, hagree 5 0 (hsize ▸ Nat.one_pos),
    ⟨node, hnode, hvelocity, hposition⟩, hreport hzero add_zero (mul_zero 0) d.execution⟩

end Scenario
end Relaxation
