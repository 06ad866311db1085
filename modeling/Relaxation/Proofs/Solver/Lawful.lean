import Relaxation.Proofs.Goal.Lawful
import Relaxation.Proofs.Scenario
import Relaxation.Proofs.Solver.Execute
import Relaxation.Proofs.Solver.Request

/-!
# Goals of a reachable solver

What holds of the goals that can be built, wherever they are attached, and outlasts responses and
accepted changes holds of every goal of a reachable solver (`Solver.Reachable.forall_goals`). So all
of their parameters are lawful (`Solver.Reachable.lawful`).
-/

namespace Relaxation

variable {α : Type} [Scalar α]

/-- The property is that of a goal with its parameters: it holds of goals that can be built, on any
nodes, and outlasts what happens to a goal that is attached. -/
structure Goal.Lasting (P : Goal α → Prop) : Prop where
  attach : ∀ {g : Goal α} (nodes : List Nat), g.Built → P { g with nodes }
  compute : ∀ {g : Goal α} (pool : Pool α), P g → P (g.compute pool)
  change : ∀ {g g' : Goal α} {a : Amendment α} {weight : Option α}, P g → a.Bounded →
    g.change a weight = .ok g' → P g'

/-- The constructors refuse parameters out of range, and so do changes. -/
theorem Goal.Built.lawful [Scalar.Ordered α] {g : Goal α} (h : g.Built) : g.Lawful := by
  induction h with
  | made h _ => exact h.lawful
  | change _ _ hchange ih => exact ih.change hchange

namespace Solver

variable {P : Goal α → Prop} {s : Solver α}

/-- Only the nodes of a goal are set when it is attached. -/
theorem forall_goals_addGoal (hP : Goal.Lasting P) {g : Goal α} {threshold : α} {s' : Solver α}
    (h : ∀ g ∈ s.goals, P g) (hg : g.Built) (hadd : s.addGoalWithThreshold g threshold = .ok s') :
    ∀ g ∈ s'.goals, P g := by
  obtain ⟨_, _, rfl⟩ := addGoalWithThreshold_eq_ok_iff.mp hadd
  intro g' hg'
  rw [Array.mem_push, goals_placeAll] at hg'
  obtain hg' | rfl := hg'
  · exact h g' hg'
  · exact hP.attach _ hg

theorem forall_goals_addGoals (hP : Goal.Lasting P) {gs : List (Goal α)} (h : ∀ g ∈ s.goals, P g)
    (hgs : ∀ g ∈ gs, g.Built) : ∀ g ∈ (s.addGoals gs).1.goals, P g := by
  induction gs generalizing s with
  | nil => exact h
  | cons g gs ih =>
    rw [Solver.addGoals]
    split
    case h_1 s' hadd =>
      exact ih (forall_goals_addGoal hP h (hgs g List.mem_cons_self) hadd)
        fun g' hg' => hgs g' (List.mem_cons_of_mem g hg')
    case h_2 => exact h

theorem forall_goals_iterate (hP : Goal.Lasting P) (h : ∀ g ∈ s.goals, P g) :
    ∀ g ∈ s.iterate.goals, P g := by
  intro g hg
  have hcomputed : g ∈ s.computed.goals := hg
  rw [goals_computed] at hcomputed
  obtain ⟨g₀, hg₀, rfl⟩ := Array.mem_map.mp hcomputed
  exact hP.compute _ (h g₀ hg₀)

theorem forall_goals_iterateN (hP : Goal.Lasting P) (h : ∀ g ∈ s.goals, P g) (n : Nat) :
    ∀ g ∈ (s.iterateN n).goals, P g := by
  induction n with
  | zero => exact h
  | succ n ih => exact forall_goals_iterate hP ih

/-- The other goals stay as they are. -/
theorem forall_goals_changeGoal (hP : Goal.Lasting P) {place : Nat} {a : Amendment α}
    {weight : Option α} {s' : Solver α} (h : ∀ g ∈ s.goals, P g) (ha : a.Bounded)
    (hchange : s.changeGoal place a weight = some (.ok s')) : ∀ g ∈ s'.goals, P g := by
  obtain ⟨g, g', hg, _, hg', rfl⟩ := changeGoal_eq_ok_iff.mp hchange
  intro x hx
  obtain hx | rfl := Array.mem_or_eq_of_mem_setIfInBounds hx
  · exact h x hx
  · exact hP.change (h g (Array.mem_of_getElem? hg)) ha hg'

/-- By induction on the operations: what use of a goal keeps holds of all goals of a solver. -/
theorem Reachable.forall_goals (h : s.Reachable) (hP : Goal.Lasting P) : ∀ g ∈ s.goals, P g := by
  induction h with
  | new params =>
    intro g hg
    cases hg.val
  | @step s op _ hop ih =>
    cases op with
    | addGoal g =>
      simp only [Operation.apply]
      cases hadd : s.addGoal g with
      | error f => exact ih
      | ok s' => exact forall_goals_addGoal hP ih hop hadd
    | addGoalWithThreshold g threshold =>
      simp only [Operation.apply]
      cases hadd : s.addGoalWithThreshold g threshold with
      | error f => exact ih
      | ok s' => exact forall_goals_addGoal hP ih hop hadd
    | addGoals gs => exact forall_goals_addGoals hP ih hop
    | addBinder b =>
      have hgoals : (s.addBinder b).goals = s.goals := goals_placeAll _ s b.starts
      exact fun g hg => ih g (hgoals ▸ hg)
    | addBinderWithThreshold b threshold =>
      have hgoals : (s.addBinderWithThreshold b threshold).goals = s.goals :=
        goals_placeAll threshold s b.starts
      exact fun g hg => ih g (hgoals ▸ hg)
    | addBinders bs => exact fun g hg => ih g (goals_addBinders s bs ▸ hg)
    | iterate => exact forall_goals_iterate hP ih
    | iterateN n => exact forall_goals_iterateN hP ih n
    | execute bounds =>
      obtain ⟨r, _, hr⟩ := executeFrom_eq bounds.energyThreshold bounds.maxIterations 0 s
      simp only [Operation.apply, execute, hr]
      exact forall_goals_iterateN hP ih r
    | clear =>
      intro g hg
      cases hg.val
    | changeGoal place a weight =>
      simp only [Operation.apply]
      rcases hchange : s.changeGoal place a weight with _ | (f | s')
      · exact ih
      · exact ih
      · exact forall_goals_changeGoal hP ih hop hchange
    | reset | send command | configure params => exact ih

/-! ## Parameters -/

theorem lasting_lawful [Scalar.Ordered α] : Goal.Lasting (α := α) Goal.Lawful where
  attach nodes h := by
    have hlawful := h.lawful
    exact ⟨hlawful.aim_lawful, hlawful.isFinite_weight, hlawful.weight_nonneg⟩
  compute _ h := ⟨h.aim_lawful, h.isFinite_weight, h.weight_nonneg⟩
  change h _ hchange := h.change hchange

theorem Reachable.lawful [Scalar.Ordered α] (h : s.Reachable) : ∀ g ∈ s.goals, g.Lawful :=
  h.forall_goals lasting_lawful

end Solver
end Relaxation
