import Relaxation.Proofs.Goal.Parameter
import Relaxation.Proofs.Solver.Replay

/-!
# Places keep what they denote

Until a solver is cleared, the pool grows at its end only and no node forgets where it started, and the
place of a goal or binder denotes the same goal or binder for good: a run changes of a goal nothing but
its buffers, and the parameters that it changes through that very place (`Solver.run_keeps`). Each
operation carries the solver on in this way (`Solver.carriesOn_apply`), and so do runs
(`Solver.carriesOn_run`).
-/

namespace Relaxation

variable {α : Type} [Scalar α]

/-! ## Changes of a goal -/

/-- Whether a change is accepted does not depend on the buffers. -/
theorem Goal.change_bare (g : Goal α) (a : Amendment α) (weight : Option α) :
    g.bare.change a weight = (g.change a weight).map bare := by
  have hkind : g.bare.kind = g.kind := rfl
  have haim : g.bare.aim = g.aim := rfl
  unfold change
  rw [hkind, haim]
  cases g.aim.amend a with
  | error f => rfl
  | ok aim =>
    simp only [bind, Except.bind]
    cases weight.forM (requireWeight (.goal g.kind)) with
    | error f => rfl
    | ok u => rfl

namespace Operation

/-- What the operation makes of the goal at place `k`, apart from its buffers: a change of that very
goal, if it is accepted, amends it, and nothing else does. -/
def amendAt (k : Nat) (g : Goal α) : Operation α → Goal α
  | changeGoal place a weight =>
    if place = k ∧ g.kind = a.kind then (g.change a weight).toOption.getD g else g
  | _ => g

theorem bare_amendAt (k : Nat) (g : Goal α) (op : Operation α) :
    (op.amendAt k g).bare = op.amendAt k g.bare := by
  cases op with
  | changeGoal place a weight =>
    simp only [amendAt, Goal.change_bare]
    by_cases h : place = k ∧ g.kind = a.kind
    · have hbare : place = k ∧ g.bare.kind = a.kind := h
      rw [if_pos h, if_pos hbare]
      cases g.change a weight <;> rfl
    · have hbare : ¬(place = k ∧ g.bare.kind = a.kind) := h
      rw [if_neg h, if_neg hbare]
  | _ => rfl

/-- An amended goal is of the same kind, has the same starting positions and stays on its nodes. -/
theorem amendAt_keeps (k : Nat) (g : Goal α) (op : Operation α) :
    (op.amendAt k g).kind = g.kind ∧ (op.amendAt k g).starts = g.starts ∧
      (op.amendAt k g).nodes = g.nodes := by
  cases op with
  | changeGoal place a weight =>
    simp only [amendAt]
    split
    · cases hchange : g.change a weight with
      | error f => exact ⟨rfl, rfl, rfl⟩
      | ok g' =>
        obtain ⟨aim, haim, _, rfl⟩ := Goal.change_eq_ok_iff.mp hchange
        exact ⟨Aim.kind_amend haim, rfl, rfl⟩
    · exact ⟨rfl, rfl, rfl⟩
  | _ => exact ⟨rfl, rfl, rfl⟩

end Operation

/-- The starting positions of the nodes, in order. -/
def Pool.starts (pool : Pool α) : List (Vec3 α) := (pool.map Node.start).toList

namespace Solver

/-! ## What every operation keeps -/

/-- The second solver has the nodes of the first one and maybe more after them, all of them starting
where they did, its binders, and its goals, with buffers of any contents and as `f` amends them. -/
structure CarriesOn (f : Nat → Goal α → Goal α) (s s' : Solver α) : Prop where
  starts_prefix : s.nodes.starts <+: s'.nodes.starts
  goal_eq : ∀ {k : Nat} {g : Goal α}, s.goals[k]? = some g →
    s'.goals[k]?.map Goal.bare = some (f k g.bare)
  binder_eq : ∀ {k : Nat} {b : Binder α}, s.binders[k]? = some b → s'.binders[k]? = some b

/-- Nothing is amended. -/
abbrev Keeps (s s' : Solver α) : Prop := s.CarriesOn (fun _ g => g) s'

variable {s s' s'' : Solver α}

omit [Scalar α] in
theorem CarriesOn.trans {f f' : Nat → Goal α → Goal α} (h : s.CarriesOn f s')
    (h' : s'.CarriesOn f' s'') : s.CarriesOn (fun k g => f' k (f k g)) s'' where
  starts_prefix := h.starts_prefix.trans h'.starts_prefix
  goal_eq hg := by
    obtain ⟨g', hg', hbare⟩ := Option.map_eq_some_iff.mp (h.goal_eq hg)
    rw [h'.goal_eq hg', hbare]
  binder_eq hb := h'.binder_eq (h.binder_eq hb)

namespace Keeps

omit [Scalar α] in
theorem refl (s : Solver α) : s.Keeps s :=
  ⟨List.prefix_rfl, fun hg => by rw [hg, Option.map_some], fun hb => hb⟩

omit [Scalar α] in
theorem trans (h : s.Keeps s') (h' : s'.Keeps s'') : s.Keeps s'' := CarriesOn.trans h h'

/-! ### Attaching -/

theorem placeAll (threshold : α) (s : Solver α) (ps : List (Vec3 α)) :
    s.Keeps (s.placeAll threshold ps).1 := by
  obtain ⟨added, _, heq⟩ := exists_placeAll_eq threshold s ps
  rw [heq]
  refine { refl s with starts_prefix := ?_ }
  rw [Pool.starts, Pool.starts, addNodes, Array.map_append, Array.toList_append]
  exact List.prefix_append ..

omit [Scalar α] in
theorem push_goal (s : Solver α) (g : Goal α) : s.Keeps { s with goals := s.goals.push g } := by
  refine { refl s with goal_eq := fun {k g'} hg => ?_ }
  have hk : k < s.goals.size := (Array.getElem?_eq_some_iff.mp hg).1
  rw [Array.getElem?_push_lt hk, ← Array.getElem?_eq_getElem hk, hg, Option.map_some]

omit [Scalar α] in
theorem push_binder (s : Solver α) (b : Binder α) :
    s.Keeps { s with binders := s.binders.push b } := by
  refine { refl s with binder_eq := fun {k b'} hb => ?_ }
  have hk : k < s.binders.size := (Array.getElem?_eq_some_iff.mp hb).1
  rw [Array.getElem?_push_lt hk, ← Array.getElem?_eq_getElem hk, hb]

theorem addGoalWithThreshold {g : Goal α} {threshold : α}
    (h : s.addGoalWithThreshold g threshold = .ok s') : s.Keeps s' := by
  obtain ⟨_, _, rfl⟩ := addGoalWithThreshold_eq_ok_iff.mp h
  exact (placeAll threshold s g.starts).trans (push_goal ..)

theorem addGoals (s : Solver α) (gs : List (Goal α)) : s.Keeps (s.addGoals gs).1 := by
  induction gs generalizing s with
  | nil => exact refl s
  | cons g gs ih =>
    rw [Solver.addGoals]
    split
    case h_1 s' hadd => exact (addGoalWithThreshold hadd).trans (ih s')
    case h_2 => exact refl s

theorem addBinderWithThreshold (s : Solver α) (b : Binder α) (threshold : α) :
    s.Keeps (s.addBinderWithThreshold b threshold) :=
  (placeAll threshold s b.starts).trans (push_binder ..)

theorem addBinders (s : Solver α) (bs : List (Binder α)) : s.Keeps (s.addBinders bs) := by
  induction bs generalizing s with
  | nil => exact refl s
  | cons b bs ih => exact (addBinderWithThreshold s b _).trans (ih _)

/-! ### Running -/

theorem iterate (s : Solver α) : s.Keeps s.iterate where
  starts_prefix := by rw [Pool.starts, Pool.starts, map_start_iterate]
  goal_eq {k g} hg := by
    change (s.drain.drift.goals.map (Goal.compute _))[k]?.map Goal.bare = some g.bare
    rw [goals_drift, Array.getElem?_map, Option.map_map]
    exact congrArg (Option.map Goal.bare) hg
  binder_eq {k b} hb := by
    change s.drain.drift.binders[k]? = some b
    rw [drift]
    split <;> exact hb

theorem iterateN (s : Solver α) (n : Nat) : s.Keeps (s.iterateN n) := by
  induction n with
  | zero => exact refl s
  | succ n ih => exact ih.trans (iterate _)

theorem executeFrom (threshold : α) (fuel done : Nat) (s : Solver α) :
    s.Keeps (s.executeFrom threshold done fuel).1 := by
  induction fuel generalizing s done with
  | zero => exact refl s
  | succ fuel ih =>
    rw [Solver.executeFrom]
    split
    · exact iterate s
    · exact (iterate s).trans (ih ..)

theorem reset (s : Solver α) : s.Keeps s.reset := by
  refine { refl s with starts_prefix := ?_ }
  rw [Pool.starts, Pool.starts, Solver.reset, Array.map_map]
  exact List.prefix_rfl

end Keeps

/-! ### Changing a goal -/

/-- A change at one place leaves the goals at all others alone. -/
theorem carriesOn_changeGoal (s : Solver α) (place : Nat) (a : Amendment α) (weight : Option α) :
    s.CarriesOn (fun k g => (Operation.changeGoal place a weight).amendAt k g)
      ((Operation.changeGoal place a weight).apply s) := by
  rcases hchange : s.changeGoal place a weight with _ | (f | s')
  case some.ok =>
    obtain ⟨g, g', hg, hkind, hg', rfl⟩ := changeGoal_eq_ok_iff.mp hchange
    simp only [Operation.apply, hchange]
    refine { Keeps.refl s with goal_eq := fun {k x} hx => ?_ }
    change (s.goals.setIfInBounds place g')[k]?.map Goal.bare = _
    rw [Array.getElem?_setIfInBounds, ← Operation.bare_amendAt]
    by_cases hplace : place = k
    · subst hplace
      obtain rfl : g = x := Option.some.inj (hg.symm.trans hx)
      have hlt : place < s.goals.size := (Array.getElem?_eq_some_iff.mp hg).1
      rw [if_pos rfl, if_pos hlt, Operation.amendAt, if_pos ⟨rfl, hkind⟩, hg']
      rfl
    · rw [if_neg hplace, hx, Operation.amendAt, if_neg fun h => hplace h.1, Option.map_some]
  -- A change that is not accepted amends nothing and leaves the solver as it was.
  all_goals
    simp only [Operation.apply, hchange]
    refine { Keeps.refl s with goal_eq := fun {k x} hx => ?_ }
    change s.goals[k]?.map Goal.bare = _
    rw [hx, Option.map_some, ← Operation.bare_amendAt, Operation.amendAt]
    split
    case isTrue h =>
      obtain ⟨rfl, hkind⟩ := h
      cases hx' : x.change a weight with
      | error f => rfl
      | ok x' =>
        have hok := changeGoal_eq_ok_iff.mpr ⟨x, x', hx, hkind, hx', rfl⟩
        rw [hchange] at hok
        cases hok
    case isFalse => rfl

/-! ## Runs -/

/-- The solver after operations, one after another. -/
def run (s : Solver α) (ops : List (Operation α)) : Solver α := ops.foldl Operation.apply s

/-- Every operation but clearing carries the solver on. -/
theorem carriesOn_apply (s : Solver α) {op : Operation α} (hop : op ≠ .clear) :
    s.CarriesOn (fun k g => op.amendAt k g) (op.apply s) := by
  cases op with
  | addGoal g =>
    simp only [Operation.apply]
    cases hadd : s.addGoal g with
    | error f => exact Keeps.refl s
    | ok s' => exact Keeps.addGoalWithThreshold hadd
  | addGoalWithThreshold g threshold =>
    simp only [Operation.apply]
    cases hadd : s.addGoalWithThreshold g threshold with
    | error f => exact Keeps.refl s
    | ok s' => exact Keeps.addGoalWithThreshold hadd
  | addGoals gs => exact Keeps.addGoals s gs
  | addBinder b => exact Keeps.addBinderWithThreshold s b _
  | addBinderWithThreshold b threshold => exact Keeps.addBinderWithThreshold s b threshold
  | addBinders bs => exact Keeps.addBinders s bs
  | iterate => exact Keeps.iterate s
  | iterateN n => exact Keeps.iterateN s n
  | execute bounds => exact Keeps.executeFrom ..
  | reset => exact Keeps.reset s
  | clear => exact absurd rfl hop
  | changeGoal place a weight => exact carriesOn_changeGoal s place a weight
  | send command => exact { Keeps.refl s with }
  | configure params => exact { Keeps.refl s with }

/-- By induction on the operations, from `carriesOn_apply`. -/
theorem carriesOn_run (s : Solver α) {ops : List (Operation α)} (hops : .clear ∉ ops) :
    s.CarriesOn (fun k g => ops.foldl (Operation.amendAt k) g) (s.run ops) := by
  induction ops generalizing s with
  | nil => exact Keeps.refl s
  | cons op ops ih =>
    rw [List.mem_cons, not_or] at hops
    exact (carriesOn_apply s (Ne.symm hops.1)).trans (ih _ hops.2)

omit [Scalar α] in
/-- A node that was in the pool still starts where it did. -/
theorem CarriesOn.exists_node {f : Nat → Goal α → Goal α} (h : s.CarriesOn f s') {i : Nat}
    {n : Node α} (hn : s.nodes[i]? = some n) : ∃ n', s'.nodes[i]? = some n' ∧ n'.start = n.start := by
  have hstart : s.nodes.starts[i]? = some n.start := by
    rw [Pool.starts, Array.getElem?_toList, Array.getElem?_map, hn, Option.map_some]
  have hi : i < s.nodes.starts.length := (List.getElem?_eq_some_iff.mp hstart).1
  have hstart' := List.prefix_iff_getElem?.mp h.starts_prefix i hi
  rw [← List.getElem?_eq_getElem hi, hstart, Pool.starts, Array.getElem?_toList,
    Array.getElem?_map] at hstart'
  exact Option.map_eq_some_iff.mp hstart'

end Solver

/-- After the operations the goal is, but for its buffers, what it was before them with the changes
that went through the place `k`. It is of the same kind and has the same nodes. -/
structure Goal.Continues (k : Nat) (ops : List (Operation α)) (g g' : Goal α) : Prop where
  kind_eq : g'.kind = g.kind
  starts_eq : g'.starts = g.starts
  nodes_eq : g'.nodes = g.nodes
  bare_eq : g'.bare = ops.foldl (Operation.amendAt k) g.bare

theorem Goal.continues_of_bare_eq {k : Nat} {ops : List (Operation α)} {g g' : Goal α}
    (h : g'.bare = ops.foldl (Operation.amendAt k) g.bare) : g.Continues k ops g' := by
  have hkeeps : ∀ (ops : List (Operation α)) (x : Goal α),
      (ops.foldl (Operation.amendAt k) x).kind = x.kind ∧
      (ops.foldl (Operation.amendAt k) x).starts = x.starts ∧
      (ops.foldl (Operation.amendAt k) x).nodes = x.nodes := by
    intro ops
    induction ops with
    | nil => exact fun x => ⟨rfl, rfl, rfl⟩
    | cons op ops ih =>
      intro x
      obtain ⟨hkind, hstarts, hnodes⟩ := ih (op.amendAt k x)
      obtain ⟨hkind', hstarts', hnodes'⟩ := Operation.amendAt_keeps k x op
      exact ⟨hkind.trans hkind', hstarts.trans hstarts', hnodes.trans hnodes'⟩
  obtain ⟨hkind, hstarts, hnodes⟩ := hkeeps ops g.bare
  rw [← h] at hkind hstarts hnodes
  exact ⟨hkind, hstarts, hnodes, h⟩

namespace Solver

variable {s : Solver α} {ops : List (Operation α)}

/-- The goal at a place is the one that was put there, as its own changes have left it. -/
theorem exists_goal_run (hops : .clear ∉ ops) {k : Nat} {g : Goal α} (hg : s.goals[k]? = some g) :
    ∃ g', (s.run ops).goals[k]? = some g' ∧ g.Continues k ops g' := by
  obtain ⟨g', hg', hbare⟩ := Option.map_eq_some_iff.mp ((carriesOn_run s hops).goal_eq hg)
  exact ⟨g', hg', Goal.continues_of_bare_eq hbare⟩

/-- What a run keeps that does not clear the solver. The pool grows at its end, every node starts
where it did and is put back there by a reset, goals are at their places on their nodes with only
the changes that were made through these places, binders are as they were. The place that attaching
gives to a goal or binder, which is the last one, denotes it for good. -/
theorem run_keeps (s : Solver α) (hops : .clear ∉ ops) :
    s.nodes.starts <+: (s.run ops).nodes.starts ∧
    (∀ (i : Nat) (n : Node α), s.nodes[i]? = some n →
      (s.run ops).reset.nodes[i]? = some (Node.atRest n.start)) ∧
    (∀ (k : Nat) (g : Goal α), s.goals[k]? = some g →
      ∃ g', (s.run ops).goals[k]? = some g' ∧ g.Continues k ops g') ∧
    (∀ (k : Nat) (b : Binder α), s.binders[k]? = some b → (s.run ops).binders[k]? = some b) ∧
    (∀ (g : Goal α) (threshold : α) (s₁ : Solver α), s.addGoalWithThreshold g threshold = .ok s₁ →
      ∃ g', (s₁.run ops).goals[s₁.goals.size - 1]? = some g' ∧
        { g with nodes := (s.placeAll threshold g.starts).2 }.Continues
          (s₁.goals.size - 1) ops g') ∧
    ∀ (b : Binder α) (threshold : α) (s₁ : Solver α), s.addBinderWithThreshold b threshold = s₁ →
      (s₁.run ops).binders[s₁.binders.size - 1]? =
        some { b with nodes := (s.placeAll threshold b.starts).2 } := by
  have hrun := carriesOn_run s hops
  refine ⟨hrun.starts_prefix, fun i n hn => ?_, fun k g => exists_goal_run hops,
    fun k b => hrun.binder_eq, fun g threshold s₁ hadd => ?_, fun b threshold s₁ hadd => ?_⟩
  · obtain ⟨n', hn', hstart⟩ := hrun.exists_node hn
    change ((s.run ops).nodes.map Node.reset)[i]? = _
    rw [Array.getElem?_map, hn', Option.map_some, Node.reset, hstart]
  · obtain ⟨_, _, rfl⟩ := addGoalWithThreshold_eq_ok_iff.mp hadd
    refine exists_goal_run hops ?_
    rw [Array.size_push, Nat.add_sub_cancel, Array.getElem?_push_size]
  · subst hadd
    refine (carriesOn_run _ hops).binder_eq ?_
    change (Array.push _ _)[(Array.push _ _).size - 1]? = _
    rw [Array.size_push, Nat.add_sub_cancel, Array.getElem?_push_size]

/-- The anchor of the anchored solver is still at its place on its node after runs, a binder and a
reset, with the target and the weight that it was given through that place in between. -/
theorem run_keeps_anchored :
    let ops : List (Operation ℝ) :=
      [.iterateN 3, .addBinder ⟨.points, [Vec3.zAxis], []⟩,
        .changeGoal 0 (.anchor (some Vec3.zAxis)) (some 2), .send .grab, .reset, .iterate]
    .clear ∉ ops ∧ (anchored.run ops).reset.nodes[0]? = some (Node.atRest 0) ∧
      ∃ g, (anchored.run ops).goals[0]? = some g ∧
        g.bare = ⟨.anchor Vec3.zAxis, 2, [0], [0], [], []⟩ := by
  intro ops
  have hops : .clear ∉ ops := by simp [ops]
  obtain ⟨_, hnodes, hgoals, _⟩ := run_keeps anchored hops
  have hnode : anchored.nodes[0]? = some (Node.atRest 0) := by rw [anchored_eq]; rfl
  have hgoal : anchored.goals[0]? =
      some { Goal.ofAim (.anchor Vec3.xAxis) [0] 1 with nodes := [0] } := by rw [anchored_eq]; rfl
  obtain ⟨g, hg, hcontinues⟩ := hgoals 0 _ hgoal
  refine ⟨hops, hnodes 0 _ hnode, g, hg, hcontinues.bare_eq.trans ?_⟩
  let before : Goal ℝ := ⟨.anchor Vec3.xAxis, 1, [0], [0], [], []⟩
  have htwo : ∀ w ∈ some (2 : ℝ), Usable w := by
    rintro w ⟨⟩
    exact usable_real_iff.mpr zero_le_two
  have hchange : before.change (.anchor (some Vec3.zAxis)) (some 2) = .ok _ :=
    Goal.change_eq_ok_iff.mpr ⟨_, rfl, htwo, rfl⟩
  change ops.foldl (Operation.amendAt 0) before = _
  have hkind : before.kind = GoalKind.anchor := rfl
  simp [ops, Operation.amendAt, Amendment.kind, hkind, hchange, Except.toOption, before]

end Solver
end Relaxation
