import Relaxation.Proofs.Fault
import Relaxation.Solver.Basic

/-!
# Attaching

Placing positions touches nothing of a solver but its pool, which grows at its end by nodes at
rest at some of the positions, each with a tally of its own (`Solver.exists_placeAll_eq`). Every
position gets the place of a node that is then in the pool (`Solver.lt_size_of_mem_placeAll`).
-/

namespace Relaxation

variable {α : Type}

theorem Goal.validate_eq_ok_iff {g : Goal α} :
    g.validate = .ok () ↔ g.moves.length = g.nodeCount ∧ g.weights.length = g.nodeCount ∧
      (g.nodes = [] ∨ g.nodes.length = g.nodeCount) := by
  unfold validate
  by_cases hmoves : g.moves.length = g.nodeCount
  · by_cases hweights : g.weights.length = g.nodeCount
    · by_cases hnodes : g.nodes = [] ∨ g.nodes.length = g.nodeCount
      · rcases hnodes with hnodes | hnodes <;> simp [hmoves, hweights, hnodes]
      · obtain ⟨hne, hlen⟩ := not_or.mp hnodes
        simp [hmoves, hweights, hne, hlen]
    · simp [hweights]
  · simp [hmoves]

namespace Solver

variable [Scalar α]

/-- The solver with nodes at rest at the end of the pool, and tallies for them. -/
def addNodes (s : Solver α) (ps : List (Vec3 α)) : Solver α :=
  { s with
    nodes := s.nodes ++ (ps.map Node.atRest).toArray
    tallies := s.tallies ++ Array.replicate ps.length Tally.zero }

@[simp] theorem addNodes_nil (s : Solver α) : s.addNodes [] = s := by simp [addNodes]

@[simp] theorem addNodes_addNode (s : Solver α) (p : Vec3 α) (ps : List (Vec3 α)) :
    (s.addNode p).addNodes ps = s.addNodes (p :: ps) := by
  have hnodes : s.nodes.push (Node.atRest p) ++ (ps.map Node.atRest).toArray =
      s.nodes ++ ((p :: ps).map Node.atRest).toArray := by
    apply Array.toList_inj.mp
    simp
  have htallies : s.tallies.push Tally.zero ++ Array.replicate ps.length Tally.zero =
      s.tallies ++ Array.replicate (p :: ps).length Tally.zero := by
    apply Array.toList_inj.mp
    simp [List.replicate_succ]
  simp only [addNodes, addNode, hnodes, htallies]

@[simp] theorem size_nodes_addNodes (s : Solver α) (ps : List (Vec3 α)) :
    (s.addNodes ps).nodes.size = s.nodes.size + ps.length := by simp [addNodes]

@[simp] theorem size_tallies_addNodes (s : Solver α) (ps : List (Vec3 α)) :
    (s.addNodes ps).tallies.size = s.tallies.size + ps.length := by simp [addNodes]

theorem place_eq_or (threshold : α) (s : Solver α) (p : Vec3 α) :
    (∃ i, s.nodes.firstWithin? threshold p = some i ∧ s.place threshold p = (s, i)) ∨
    (s.nodes.firstWithin? threshold p = none ∧
      s.place threshold p = (s.addNode p, s.nodes.size)) := by
  unfold place
  cases h : s.nodes.firstWithin? threshold p with
  | some i => exact .inl ⟨i, rfl, rfl⟩
  | none => exact .inr ⟨rfl, rfl⟩

/-- Of the positions placed, those that found no node become nodes. -/
theorem exists_placeAll_eq (threshold : α) (s : Solver α) (ps : List (Vec3 α)) :
    ∃ added, added.Sublist ps ∧ (s.placeAll threshold ps).1 = s.addNodes added := by
  induction ps generalizing s with
  | nil => exact ⟨[], .slnil, (addNodes_nil s).symm⟩
  | cons p ps ih =>
    rcases place_eq_or threshold s p with ⟨i, _, hplace⟩ | ⟨_, hplace⟩
    · obtain ⟨added, hsub, heq⟩ := ih s
      exact ⟨added, hsub.cons p, by simp only [placeAll, hplace, heq]⟩
    · obtain ⟨added, hsub, heq⟩ := ih (s.addNode p)
      exact ⟨p :: added, hsub.cons_cons p, by simp only [placeAll, hplace, heq, addNodes_addNode]⟩

theorem goals_placeAll (threshold : α) (s : Solver α) (ps : List (Vec3 α)) :
    (s.placeAll threshold ps).1.goals = s.goals := by
  obtain ⟨added, _, heq⟩ := exists_placeAll_eq threshold s ps
  rw [heq]
  rfl

theorem binders_placeAll (threshold : α) (s : Solver α) (ps : List (Vec3 α)) :
    (s.placeAll threshold ps).1.binders = s.binders := by
  obtain ⟨added, _, heq⟩ := exists_placeAll_eq threshold s ps
  rw [heq]
  rfl

theorem interaction_placeAll (threshold : α) (s : Solver α) (ps : List (Vec3 α)) :
    (s.placeAll threshold ps).1.interaction = s.interaction := by
  obtain ⟨added, _, heq⟩ := exists_placeAll_eq threshold s ps
  rw [heq]
  rfl

theorem interaction_addBinders (s : Solver α) (bs : List (Binder α)) :
    (s.addBinders bs).interaction = s.interaction := by
  induction bs generalizing s with
  | nil => rfl
  | cons b bs ih => exact (ih (s.addBinder b)).trans (interaction_placeAll ..)

theorem length_placeAll (threshold : α) (s : Solver α) (ps : List (Vec3 α)) :
    (s.placeAll threshold ps).2.length = ps.length := by
  induction ps generalizing s with
  | nil => rfl
  | cons p ps ih => simp only [placeAll, List.length_cons, ih]

theorem size_le_size_placeAll (threshold : α) (s : Solver α) (ps : List (Vec3 α)) :
    s.nodes.size ≤ (s.placeAll threshold ps).1.nodes.size := by
  obtain ⟨added, _, heq⟩ := exists_placeAll_eq threshold s ps
  rw [heq, size_nodes_addNodes]
  exact Nat.le_add_right ..

theorem lt_size_of_mem_placeAll {threshold : α} {s : Solver α} {ps : List (Vec3 α)} {i : Nat}
    (h : i ∈ (s.placeAll threshold ps).2) : i < (s.placeAll threshold ps).1.nodes.size := by
  induction ps generalizing s with
  | nil => simp [placeAll] at h
  | cons p ps ih =>
    rw [placeAll, List.mem_cons] at h
    rcases h with rfl | h
    · -- The place of the first position is in the pool at once, and the pool only grows.
      have hlt : (s.place threshold p).2 < (s.place threshold p).1.nodes.size := by
        rcases place_eq_or threshold s p with ⟨i, hfound, hplace⟩ | ⟨_, hplace⟩
        · rw [hplace]
          exact (Array.findIdx?_eq_some_iff_getElem.mp hfound).1
        · simp [hplace, addNode]
      exact Nat.lt_of_lt_of_le hlt (size_le_size_placeAll threshold _ ps)
    · exact ih h

/-- A goal is attached when it has a starting position and consistent buffers; its nodes are then
those that its starting positions are placed on. -/
theorem addGoalWithThreshold_eq_ok_iff {s s' : Solver α} {g : Goal α} {threshold : α} :
    s.addGoalWithThreshold g threshold = .ok s' ↔
      g.nodeCount ≠ 0 ∧ g.validate = .ok () ∧
        { (s.placeAll threshold g.starts).1 with
          goals := (s.placeAll threshold g.starts).1.goals.push
            { g with nodes := (s.placeAll threshold g.starts).2 } } = s' := by
  unfold addGoalWithThreshold
  by_cases h : g.nodeCount = 0
  · simp [h, throw, throwThe, MonadExceptOf.throw, bind, Except.bind]
  · simp only [h, beq_iff_eq, if_false, Checked.check_bind_eq_ok, Checked.pure_eq_ok, ne_eq,
      not_false_eq_true, true_and]

/-- The solver with a goal attached, whatever its buffers. -/
def attach (threshold : α) (s : Solver α) (g : Goal α) : Solver α :=
  { (s.placeAll threshold g.starts).1 with
    goals := (s.placeAll threshold g.starts).1.goals.push
      { g with nodes := (s.placeAll threshold g.starts).2 } }

end Solver
end Relaxation
