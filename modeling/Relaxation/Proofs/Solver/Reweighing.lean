import Relaxation.Proofs.Solver.Lawful
import Relaxation.Proofs.Solver.Mean
import Relaxation.Proofs.Solver.Pairs
import Relaxation.Proofs.Solver.Identity

/-!
# Ratios of weights

A weight says how much a move counts beside others, and nothing about the move itself. So over the
reals, where the mean of the moves depends on the ratios of their weights alone, the weights of all
goals can be multiplied by one factor without any effect on the nodes, as long as the pointer, whose
weight is fixed, pulls at none of them (`Solver.Reachable.iterateN_reweighing`).
-/

namespace Relaxation

/-! ## Changing a weight and nothing else -/

/-- The amendment for goals of a kind that leaves out every parameter. -/
def Amendment.unset {α : Type} : GoalKind → Amendment α
  | .anchor => .anchor none
  | .force => .force none
  | .length => .length none
  | .clampLength => .clampLength none none
  | .direction => .direction none
  | .angle => .angle none
  | .onLine => .onLine none
  | .onPlane => .onPlane none
  | .onCurve => .onCurve none
  | .onSurface => .onSurface none
  | .floor => .floor none
  | .sphereCollision => .sphereCollision none
  | .sphereStaticLineCollision => .sphereStaticLineCollision none
  | .constantPressure => .constantPressure none
  | .constantVolumePressure => .constantVolumePressure none
  | .directionalWind => .directionalWind none
  | .shapeMatching => .shapeMatching none
  | kind => .plain kind

theorem Amendment.kind_unset {α : Type} (kind : GoalKind) :
    (Amendment.unset kind : Amendment α).kind = kind := by
  cases kind <;> rfl

theorem Amendment.bounded_unset {α : Type} (kind : GoalKind) :
    (Amendment.unset kind : Amendment α).Bounded := by
  cases kind <;> simp [unset, Bounded]

/-- The bounds of a range are held against each other also when neither is supplied. -/
theorem Aim.Lawful.amend_unset {aim : Aim ℝ} (h : aim.Lawful) :
    aim.amend (.unset aim.kind) = .ok aim := by
  cases aim with
  | clampLength min max =>
    obtain ⟨_, hmin, horder⟩ := h
    have hrange : Goal.checkRange min max = .ok () := Goal.checkRange_eq_ok_iff.mpr
      ⟨usable_real_iff.mpr hmin, usable_real_iff.mpr (hmin.trans horder), not_lt.mpr horder⟩
    exact Checked.check_bind_eq_ok.mpr ⟨hrange, rfl⟩
  | _ => rfl

namespace Goal

theorem Lawful.change_unset {g : Goal ℝ} (h : g.Lawful) {w : ℝ} (hw : 0 ≤ w) :
    g.change (.unset g.kind) (some w) = .ok { g with weight := w } := by
  refine change_eq_ok_iff.mpr ⟨g.aim, h.aim_lawful.amend_unset, fun w' hw' => ?_, rfl⟩
  cases hw'
  exact usable_real_iff.mpr hw

/-- The goal with its weight multiplied. -/
noncomputable def reweigh (c : ℝ) (g : Goal ℝ) : Goal ℝ := { g with weight := c * g.weight }

/-- The goal with its weight multiplied, and those in its response as well. -/
noncomputable def reweighAll (c : ℝ) (g : Goal ℝ) : Goal ℝ :=
  { g.reweigh c with weights := g.weights.map (c * ·) }

end Goal

/-! ## Multiples of requests -/

/-- The request with its weight multiplied. -/
noncomputable def Request.scale (c : ℝ) (r : Request ℝ) : Request ℝ := ⟨r.move, c * r.weight⟩

namespace Tally

/-- The tally of moves whose weights are all `c` times as large. -/
noncomputable def scale (c : ℝ) (t : Tally ℝ) : Tally ℝ := ⟨c • t.move, c * t.weight⟩

theorem scale_zero (c : ℝ) : (zero : Tally ℝ).scale c = zero := by
  simp [scale, zero]

theorem scale_add (c : ℝ) (move : Vec3 ℝ) (weight : ℝ) (t : Tally ℝ) :
    (t.add move weight).scale c = (t.scale c).add move (c * weight) := by
  simp only [scale, add, Vec3.mul_real, smul_add, smul_smul, mul_add]

theorem addAll_scale (c : ℝ) (t : Tally ℝ) (rs : List (Request ℝ)) :
    (t.scale c).addAll (rs.map (.scale c)) = (t.addAll rs).scale c := by
  induction rs generalizing t with
  | nil => rfl
  | cons r rs ih => rw [List.map_cons, addAll_cons, addAll_cons, ← ih, scale_add, Request.scale]

end Tally

/-- The mean of the moves does not change when all weights are multiplied. -/
theorem Node.move_scale {c : ℝ} (hc : c ≠ 0) (params : Params ℝ) (t : Tally ℝ) (n : Node ℝ) :
    n.move params (t.scale c) = n.move params t := by
  have hzero : ((t.scale c).weight == 0) = (t.weight == 0) := by
    rw [Bool.eq_iff_iff, Scalar.beq_real_iff, Scalar.beq_real_iff]
    exact mul_eq_zero_iff_left hc
  have hstep : (t.scale c).move / (t.scale c).weight = t.move / t.weight := by
    rw [Vec3.div_real, Vec3.div_real, Tally.scale, smul_smul, mul_inv_rev, mul_assoc,
      inv_mul_cancel₀ hc, mul_one]
  simp only [move, hzero, hstep]

/-- A node moves by a quotient of two sums of weights, so a common factor drops out. -/
theorem Node.iterate_scale {c : ℝ} (hc : c ≠ 0) (params : Params ℝ) (rs : List (Request ℝ))
    (n : Node ℝ) : n.iterate params (rs.map (.scale c)) = n.iterate params rs := by
  rw [iterate, iterate, ← Tally.scale_zero c, Tally.addAll_scale, move_scale hc, Tally.scale_zero]

namespace Goal

/-- A goal with all weights scaled asks for the same moves. -/
theorem requests_reweighAll (c : ℝ) (g : Goal ℝ) (i : Nat) :
    (g.reweighAll c).requests i = (g.requests i).map (.scale c) := by
  change (g.nodes.zip (g.moves.zip (g.weights.map (c * ·)))).filterMap _ = _
  rw [requests, List.map_filterMap, List.zip_map_right, List.zip_map_right, List.filterMap_map]
  refine List.filterMap_congr fun entry _ => ?_
  obtain ⟨j, move, weight⟩ := entry
  by_cases hj : j = i
  · simp [hj, Request.scale]
  · simp [hj]

/-- A goal of a multiple of the weight asks for the same moves, with a multiple of the weights,
whatever its buffers held before. -/
theorem Attached.compute_reweigh {count : Nat} {c : ℝ} {g g' : Goal ℝ} (h : g.Attached count)
    (h' : g'.Attached count) (hbare : g'.bare = g.bare.reweigh c) (pool : Pool ℝ) :
    g'.compute pool = (g.compute pool).reweighAll c := by
  rw [h.compute_eq h.nodes_length, h'.compute_eq h'.nodes_length]
  obtain ⟨aim, weight, starts, nodes, moves, weights⟩ := g
  obtain ⟨aim', weight', starts', nodes', moves', weights'⟩ := g'
  simp only [bare, reweigh, mk.injEq, and_true] at hbare
  obtain ⟨rfl, rfl, rfl, rfl⟩ := hbare
  have hweights : ∀ r : Response ℝ, r.weights (c * weight) = (r.weights weight).map (c * ·) := by
    intro r
    simp only [Response.weights, List.map_map, Function.comp_def, mul_ite, mul_zero]
  simp only [reweighAll, reweigh, hweights]
  rfl

end Goal

namespace Solver

/-! ## Runs with multiplied weights -/

/-- The second solver is the first one with the weights of all goals multiplied, as far as iterations
depend on it and the moves of the goals tell. -/
structure Reweighed (c : ℝ) (s s' : Solver ℝ) : Prop where
  params_eq : s'.params = s.params
  nodes_eq : s'.nodes = s.nodes
  interaction_eq : s'.interaction = s.interaction
  goals_eq : s'.goals.map Goal.bare = s.goals.map fun g => g.bare.reweigh c
  moves_eq : s'.goals.map Goal.moves = s.goals.map Goal.moves

namespace Reweighed

variable {c : ℝ} {s s' : Solver ℝ}

theorem nodes_computed_eq (h : Reweighed c s s') : s'.computed.nodes = s.computed.nodes := by
  rw [nodes_computed, nodes_computed, nodes_drift, nodes_drift, h.params_eq, h.nodes_eq]

theorem interaction_computed_eq (h : Reweighed c s s') :
    s'.computed.interaction = s.computed.interaction := by
  change s'.drain.drift.interaction = s.drain.drift.interaction
  rw [interaction_drift, interaction_drift, drain, drain, h.interaction_eq, h.nodes_eq]

theorem goals_computed_eq (h : Reweighed c s s') (hs : s.WellFormed) (hs' : s'.WellFormed) :
    s'.computed.goals = s.computed.goals.map (Goal.reweighAll c) := by
  rw [goals_computed, goals_computed, h.nodes_computed_eq, Array.map_map]
  apply Array.ext_getElem?
  intro k
  have hbare : (s'.goals.map Goal.bare)[k]? = (s.goals.map fun g => g.bare.reweigh c)[k]? := by
    rw [h.goals_eq]
  simp only [Array.getElem?_map] at hbare ⊢
  cases hg : s.goals[k]? with
  | none =>
    rw [hg, Option.map_none, Option.map_eq_none_iff] at hbare
    rw [hbare, Option.map_none, Option.map_none]
  | some g =>
    rw [hg, Option.map_some, Option.map_eq_some_iff] at hbare
    obtain ⟨g', hg', hbare⟩ := hbare
    have hattached := hs.goals_attached g (Array.mem_of_getElem? hg)
    have hattached' := hs'.goals_attached g' (Array.mem_of_getElem? hg')
    rw [h.nodes_eq] at hattached'
    rw [hg', Option.map_some, Option.map_some, hattached.compute_reweigh hattached' hbare]
    rfl

/-- The same is asked of every node, with all weights multiplied. -/
theorem requests_eq (h : Reweighed c s s') (hs : s.WellFormed) (hs' : s'.WellFormed)
    (hpull : s.Unpulled) (i : Nat) :
    s'.computed.requests i = (s.computed.requests i).map (.scale c) := by
  have hpull' : s'.computed.pullRequest i = none := by
    rw [← hpull i, pullRequest, pullRequest, params_computed, params_computed, h.params_eq,
      h.nodes_computed_eq, h.interaction_computed_eq]
  rw [requests, requests, hpull', hpull i, h.goals_computed_eq hs hs', Array.toList_map,
    List.flatMap_map, Option.toList_none, List.append_nil, List.append_nil, List.map_flatMap]
  simp only [Goal.requests_reweighAll]

/-- Everything but the weights is the same after an iteration. -/
theorem iterate (h : Reweighed c s s') (hc : c ≠ 0) (hs : s.WellFormed) (hs' : s'.WellFormed)
    (hpull : s.Unpulled) : Reweighed c s.iterate s'.iterate where
  params_eq := by
    change s'.computed.params = s.computed.params
    rw [params_computed, params_computed, h.params_eq]
  nodes_eq := by
    apply Array.ext_getElem?
    intro i
    have hnode := funext (Node.iterate_scale hc s.params (s.computed.requests i))
    rw [hs.getElem?_iterate, hs'.getElem?_iterate, h.nodes_eq, h.params_eq,
      h.requests_eq hs hs' hpull, hnode]
  interaction_eq := h.interaction_computed_eq
  goals_eq := by
    change s'.computed.goals.map Goal.bare = s.computed.goals.map _
    rw [h.goals_computed_eq hs hs', Array.map_map]
    rfl
  moves_eq := by
    change s'.computed.goals.map Goal.moves = s.computed.goals.map _
    rw [h.goals_computed_eq hs hs', Array.map_map]
    rfl

theorem iterateN (h : Reweighed c s s') (hc : c ≠ 0) (hs : s.WellFormed) (hs' : s'.WellFormed)
    {n : Nat} (hpull : ∀ k < n, (s.iterateN k).Unpulled) :
    Reweighed c (s.iterateN n) (s'.iterateN n) := by
  induction n with
  | zero => exact h
  | succ n ih =>
    have hbefore := ih fun k hk => hpull k (Nat.lt_succ_of_lt hk)
    exact hbefore.iterate hc (hs.iterateN n) (hs'.iterateN n) (hpull n (Nat.lt_succ_self n))

end Reweighed

/-! ## Changing all weights -/

/-- The changes that multiply the weight of every goal, one after another. -/
noncomputable def reweighing (c : ℝ) (s : Solver ℝ) : List (Operation ℝ) :=
  s.goals.toList.zipIdx.map fun (g, k) => .changeGoal k (.unset g.kind) (some (c * g.weight))

theorem permitted_reweighing (c : ℝ) (s : Solver ℝ) : ∀ op ∈ s.reweighing c, op.Permitted := by
  intro op hop
  obtain ⟨⟨g, k⟩, _, rfl⟩ := List.mem_map.mp hop
  exact Amendment.bounded_unset g.kind

theorem apply_changeGoal_unset {s : Solver ℝ} {k : Nat} {g : Goal ℝ} {w : ℝ}
    (hk : s.goals[k]? = some g) (hg : g.Lawful) (hw : 0 ≤ w) :
    (Operation.changeGoal k (.unset g.kind) (some w)).apply s =
      { s with goals := s.goals.setIfInBounds k { g with weight := w } } := by
  have hchange := changeGoal_eq_ok_iff.mpr ⟨g, _, hk, (Amendment.kind_unset g.kind).symm,
    hg.change_unset hw, rfl⟩
  rw [Operation.apply, hchange]
  rfl

/-- The weights before a place are multiplied already, those from there on are still to be. -/
theorem run_reweighing_from {c : ℝ} (hc : 0 ≤ c) {s : Solver ℝ} (before after : List (Goal ℝ))
    (hgoals : s.goals = (before ++ after).toArray) (hlawful : ∀ g ∈ after, g.Lawful) :
    s.run ((after.zipIdx before.length).map fun (g, k) =>
        .changeGoal k (.unset g.kind) (some (c * g.weight))) =
      { s with goals := (before ++ after.map (Goal.reweigh c)).toArray } := by
  induction after generalizing s before with
  | nil => simp only [List.zipIdx_nil, List.map_nil, ← hgoals]; rfl
  | cons g after ih =>
    have hk : s.goals[before.length]? = some g := by simp [hgoals]
    have hg := hlawful g List.mem_cons_self
    have happly := apply_changeGoal_unset hk hg (mul_nonneg hc hg.weight_nonneg)
    rw [List.zipIdx_cons, List.map_cons, run, List.foldl_cons, happly]
    have hset : s.goals.setIfInBounds before.length { g with weight := c * g.weight } =
        ((before ++ [g.reweigh c]) ++ after).toArray := by
      simp [hgoals, Goal.reweigh]
    have hrest := ih (s := { s with goals := _ }) (before ++ [g.reweigh c]) hset
      fun g' hg' => hlawful g' (List.mem_cons_of_mem g hg')
    rw [List.length_append, List.length_singleton] at hrest
    refine hrest.trans ?_
    simp

/-- The changes are accepted one after the other and change the weights only. -/
theorem Reachable.run_reweighing {s : Solver ℝ} (h : s.Reachable) {c : ℝ} (hc : 0 ≤ c) :
    s.run (s.reweighing c) = { s with goals := s.goals.map (Goal.reweigh c) } := by
  have hlawful : ∀ g ∈ s.goals.toList, g.Lawful := fun g hg =>
    h.lawful g (Array.mem_def.mpr hg)
  have hgoals : s.goals = ([] ++ s.goals.toList).toArray := by simp
  have hrun := run_reweighing_from hc [] s.goals.toList hgoals hlawful
  refine hrun.trans ?_
  rw [List.nil_append, ← Array.toList_map]

theorem Reachable.run {α : Type} [Scalar α] {s : Solver α} (h : s.Reachable)
    {ops : List (Operation α)} (hops : ∀ op ∈ ops, op.Permitted) : (s.run ops).Reachable := by
  induction ops generalizing s with
  | nil => exact h
  | cons op ops ih =>
    exact ih (h.step (hops op List.mem_cons_self))
      fun op' hop' => hops op' (List.mem_cons_of_mem op hop')

theorem reweighed_reweigh (c : ℝ) (s : Solver ℝ) :
    Reweighed c s { s with goals := s.goals.map (Goal.reweigh c) } := by
  refine ⟨rfl, rfl, rfl, ?_, ?_⟩ <;> rw [Array.map_map] <;> rfl

/-- Only the ratios of weights matter. Multiplying the weight of every goal by a positive factor, goal
by goal through changes, is accepted and changes nothing but the weights. From there the nodes go the
same way through any number of iterations in which the pointer does not pull, velocities included, and
every goal keeps asking for the same moves. More generally a goal may be given any weight whatsoever
without an effect on the moves that it asks for. -/
theorem Reachable.iterateN_reweighing {s : Solver ℝ} (h : s.Reachable) {c : ℝ} (hc : 0 < c) :
    s.run (s.reweighing c) = { s with goals := s.goals.map (Goal.reweigh c) } ∧
    (∀ n, (∀ k < n, (s.iterateN k).Unpulled) →
      ((s.run (s.reweighing c)).iterateN n).nodes = (s.iterateN n).nodes ∧
      ((s.run (s.reweighing c)).iterateN n).goals.map Goal.moves =
        (s.iterateN n).goals.map Goal.moves) ∧
    ∀ g ∈ s.goals, ∀ w : ℝ, 0 ≤ w →
      ∃ g', g.change (.unset g.kind) (some w) = .ok g' ∧ g'.weight = w ∧
        ∀ pool, (g'.compute pool).moves = (g.compute pool).moves := by
  have hrun := h.run_reweighing hc.le
  refine ⟨hrun, fun n hpull => ?_, fun g hg w hw => ?_⟩
  · have hwf := h.wellFormed
    have hwf' : (s.run (s.reweighing c)).WellFormed :=
      (h.run (s.permitted_reweighing c)).wellFormed
    have hreweighed : Reweighed c s (s.run (s.reweighing c)) := hrun ▸ reweighed_reweigh c s
    have hn := hreweighed.iterateN hc.ne' hwf hwf' hpull
    exact ⟨hn.nodes_eq, hn.moves_eq⟩
  · exact ⟨_, (h.lawful g hg).change_unset hw, rfl, fun pool => rfl⟩

/-- A node that two anchors pull different ways, with weights of one and two, before and after both
weights are tripled. -/
theorem iterateN_reweighing_anchored :
    let s := (Operation.addGoal (Goal.ofAim (.anchor Vec3.zAxis) [0] 2)).apply anchored
    s.Reachable ∧ (0 : ℝ) < 3 ∧ (s.run (s.reweighing 3)).goals.map Goal.weight = #[3, 6] ∧
      ((s.run (s.reweighing 3)).iterateN 5).nodes = (s.iterateN 5).nodes := by
  intro s
  have hmade : (Goal.ofAim (.anchor Vec3.zAxis) [0] (2 : ℝ)).Made :=
    .anchor (Goal.anchor_eq_ok_iff.mpr ⟨rfl, usable_real_iff.mpr zero_le_two, rfl⟩)
  have hs : s.Reachable := .step reachable_anchored (.made hmade (.of_shapeless rfl))
  obtain ⟨added, _, hplaced⟩ :=
    exists_placeAll_eq anchored.params.mergeThreshold anchored [(0 : Vec3 ℝ)]
  have hs_eq : s = anchored.attach anchored.params.mergeThreshold
      (Goal.ofAim (.anchor Vec3.zAxis) [0] 2) := by
    simp only [s, Operation.apply, addGoal, hmade.addGoalWithThreshold_eq]
    rfl
  have hweights : s.goals.map Goal.weight = #[1, 2] := by
    rw [hs_eq]
    simp [attach, goals_placeAll, anchored_eq, Goal.ofAim]
  have hpull : s.params.pointerPull = false := by
    rw [hs_eq]
    change (anchored.placeAll _ [0]).1.params.pointerPull = false
    rw [hplaced, anchored_eq]
    rfl
  have hunpulled : ∀ k < 5, (s.iterateN k).Unpulled := fun k _ =>
    unpulled_of_pointerPull ((congrArg Params.pointerPull (params_iterateN s k)).trans hpull)
  have hreweighing := hs.iterateN_reweighing (c := 3) three_pos
  refine ⟨hs, three_pos, ?_, (hreweighing.2.1 5 hunpulled).1⟩
  have hscaled : (s.run (s.reweighing 3)).goals.map Goal.weight =
      (s.goals.map Goal.weight).map (3 * ·) := by
    rw [hreweighing.1, Array.map_map, Array.map_map]
    rfl
  rw [hscaled, hweights]
  norm_num

end Solver
end Relaxation
