import Relaxation.Proofs.Scalar.Real
import Relaxation.Proofs.Solver.WellFormed

/-!
# Reachable solvers

A reachable solver comes from a new one by operations whose goals and binders come out of their
constructors and whose meshes refer to none but their own vertices. Every reachable solver is
well-formed (`Solver.Reachable.wellFormed`).
-/

namespace Relaxation

variable {α : Type} [Scalar α]

/-- What the owner of a solver, or the sender of a command, may do to it. -/
inductive Operation (α : Type) where
  | addGoal (g : Goal α)
  | addGoalWithThreshold (g : Goal α) (threshold : α)
  | addGoals (gs : List (Goal α))
  | addBinder (b : Binder α)
  | addBinderWithThreshold (b : Binder α) (threshold : α)
  | addBinders (bs : List (Binder α))
  | iterate
  | iterateN (n : Nat)
  | execute (bounds : ExecutionBounds α)
  | reset
  | clear
  | changeGoal (place : Nat) (a : Amendment α) (weight : Option α)
  | send (command : Command α)
  | configure (params : Params α)

namespace Operation

/-- The goals and binders that the operation brings in come out of their constructors, and a mesh that
it brings in has the vertices that its faces refer to. -/
def Permitted : Operation α → Prop
  | addGoal g | addGoalWithThreshold g _ => g.Built
  | addGoals gs => ∀ g ∈ gs, g.Built
  | addBinder b | addBinderWithThreshold b _ => b.Built
  | addBinders bs => ∀ b ∈ bs, b.Built
  | changeGoal _ a _ => a.Bounded
  | iterate | iterateN _ | execute _ | reset | clear | send _ | configure _ => True

/-- The solver after an operation. One that is refused leaves it as it was, except that of several
goals those before the refused one are attached. -/
def apply (s : Solver α) : Operation α → Solver α
  | addGoal g => (s.addGoal g).toOption.getD s
  | addGoalWithThreshold g threshold => (s.addGoalWithThreshold g threshold).toOption.getD s
  | addGoals gs => (s.addGoals gs).1
  | addBinder b => s.addBinder b
  | addBinderWithThreshold b threshold => s.addBinderWithThreshold b threshold
  | addBinders bs => s.addBinders bs
  | iterate => s.iterate
  | iterateN n => s.iterateN n
  | execute bounds => (s.execute bounds).1
  | reset => s.reset
  | clear => s.clear
  | changeGoal place a weight =>
    ((s.changeGoal place a weight).bind Except.toOption).getD s
  | send command => s.send command
  | configure params => { s with params }

end Operation

namespace Solver

/-- The solvers that permitted operations lead to. -/
inductive Reachable : Solver α → Prop
  | new (params : Params α) : Reachable (new params)
  | step {s : Solver α} {op : Operation α} : Reachable s → op.Permitted → Reachable (op.apply s)

/-- Each operation by the lemma of its name. -/
theorem WellFormed.apply {s : Solver α} {op : Operation α} (h : s.WellFormed)
    (hop : op.Permitted) : (op.apply s).WellFormed := by
  cases op with
  | addGoal g =>
    simp only [Operation.apply]
    cases hadd : s.addGoal g with
    | error f => exact h
    | ok s' => exact h.addGoalWithThreshold (Goal.Built.sound hop) hadd
  | addGoalWithThreshold g threshold =>
    simp only [Operation.apply]
    cases hadd : s.addGoalWithThreshold g threshold with
    | error f => exact h
    | ok s' => exact h.addGoalWithThreshold (Goal.Built.sound hop) hadd
  | addGoals gs => exact h.addGoals fun g hg => (hop g hg).sound
  | addBinder b => exact h.addBinderWithThreshold (Binder.Built.sound hop) _
  | addBinderWithThreshold b threshold =>
    exact h.addBinderWithThreshold (Binder.Built.sound hop) threshold
  | addBinders bs => exact h.addBinders fun b hb => (hop b hb).sound
  | iterate => exact h.iterate
  | iterateN n => exact h.iterateN n
  | execute bounds => exact h.execute bounds
  | reset => exact h.reset
  | clear => exact wellFormed_new s.params
  | changeGoal place a weight =>
    simp only [Operation.apply]
    rcases hchange : s.changeGoal place a weight with _ | (f | s')
    · exact h
    · exact h
    · exact h.changeGoal hop hchange
  | send command => exact h.send command
  | configure params => exact ⟨h.tallies_size, h.goals_attached, h.binders_attached, h.holds⟩

/-- By induction on the operations that lead to the solver. -/
theorem Reachable.wellFormed {s : Solver α} (h : s.Reachable) : s.WellFormed := by
  induction h with
  | new params => exact wellFormed_new params
  | step _ hop ih => exact ih.apply hop

/-- A solver over the reals whose one node starts at the origin, anchored to a point of the first
axis. -/
noncomputable def anchored : Solver ℝ :=
  (Operation.addGoal (Goal.ofAim (.anchor Vec3.xAxis) [0] 1)).apply (new Params.default)

theorem anchored_eq : anchored =
    { new Params.default with
      nodes := #[Node.atRest 0]
      tallies := #[Tally.zero]
      goals := #[{ Goal.ofAim (.anchor Vec3.xAxis) [0] 1 with nodes := [0] }] } := by
  have hadd : (new Params.default).addGoal (Goal.ofAim (.anchor Vec3.xAxis) [0] (1 : ℝ)) = .ok _ :=
    addGoalWithThreshold_eq_ok_iff.mpr ⟨Nat.one_ne_zero, rfl, rfl⟩
  rw [anchored, Operation.apply, hadd]
  simp [placeAll, place, new, Pool.firstWithin?, Goal.ofAim, addNode, Except.toOption]

theorem reachable_anchored : anchored.Reachable := by
  have hmade : (Goal.ofAim (.anchor Vec3.xAxis) [0] (1 : ℝ)).Made :=
    .anchor (Goal.anchor_eq_ok_iff.mpr ⟨rfl, usable_real_iff.mpr zero_le_one, rfl⟩)
  exact .step (.new Params.default) (.made hmade (.of_shapeless rfl))

end Solver
end Relaxation
