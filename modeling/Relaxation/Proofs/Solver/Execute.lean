import Mathlib.Order.Bounds.Basic
import Relaxation.Proofs.Lists
import Relaxation.Solver.Execute

/-!
# Executions are iterations that stop

An execution ends in the solver that as many plain iterations lead to as it reports, and it stops
after the first of them that leaves the energy below the threshold (`Solver.execute_refines_iterateN`).
Nothing is assumed of the arithmetic: an energy that is not a number is below no threshold. One that
has not converged can be taken up where it was left (`Solver.executeFrom_add`).
-/

namespace Relaxation.Solver

variable {α : Type} [Scalar α]

theorem iteration_iterate (s : Solver α) : s.iterate.iteration = s.iteration + 1 := by
  change s.drain.drift.iteration + 1 = s.iteration + 1
  unfold drift
  split <;> rfl

theorem iteration_iterateN (s : Solver α) (n : Nat) :
    (s.iterateN n).iteration = s.iteration + n := by
  induction n with
  | zero => rfl
  | succ n ih => exact (iteration_iterate (s.iterateN n)).trans (congrArg (· + 1) ih)

theorem iterateN_succ (s : Solver α) (n : Nat) : s.iterateN (n + 1) = s.iterate.iterateN n :=
  repeat_succ' iterate n s

/-- The numbers of iterations, at least one and at most as many as allowed, that leave the energy
below the threshold. -/
def calm (bounds : ExecutionBounds α) (s : Solver α) : Set Nat :=
  {k | (1 ≤ k ∧ k ≤ bounds.maxIterations) ∧ (s.iterateN k).kineticEnergy < bounds.energyThreshold}

/-! ## One stop -/

/-- The iterations after which an execution of at most `fuel` of them stops: the energy was not below
the threshold before, and is now unless there is no more fuel. -/
structure StopsAfter (threshold : α) (fuel : Nat) (s : Solver α) (r : Nat) : Prop where
  le_fuel : r ≤ fuel
  not_before : ∀ k, 1 ≤ k → k < r → ¬(s.iterateN k).kineticEnergy < threshold
  spent_or_calm : r = fuel ∨ 1 ≤ r ∧ (s.iterateN r).kineticEnergy < threshold

variable {threshold : α} {fuel r : Nat} {s : Solver α}

theorem StopsAfter.succ (hloud : ¬s.iterate.kineticEnergy < threshold)
    (h : s.iterate.StopsAfter threshold fuel r) : s.StopsAfter threshold (fuel + 1) (r + 1) where
  le_fuel := Nat.succ_le_succ h.le_fuel
  not_before k hk hlt := by
    obtain ⟨k, rfl⟩ := Nat.exists_eq_add_of_le' hk
    cases k with
    | zero => exact hloud
    | succ k =>
      rw [iterateN_succ]
      exact h.not_before (k + 1) (Nat.succ_pos k) (Nat.lt_of_succ_lt_succ hlt)
  spent_or_calm := by
    rw [iterateN_succ]
    exact h.spent_or_calm.imp (congrArg (· + 1)) fun hcalm => ⟨Nat.succ_pos r, hcalm.2⟩

theorem executeFrom_eq (threshold : α) (fuel done : Nat) (s : Solver α) :
    ∃ r, s.StopsAfter threshold fuel r ∧
      s.executeFrom threshold done fuel =
        (s.iterateN r, ⟨done + r, (s.iterateN r).kineticEnergy,
          decide (1 ≤ r ∧ (s.iterateN r).kineticEnergy < threshold)⟩) := by
  induction fuel generalizing done s with
  | zero => exact ⟨0, ⟨le_rfl, fun k hk hlt => absurd hlt k.not_lt_zero, .inl rfl⟩, rfl⟩
  | succ fuel ih =>
    by_cases hcalm : s.iterate.kineticEnergy < threshold
    · have hone : (s.iterateN 1).kineticEnergy < threshold := hcalm
      refine ⟨1, ⟨Nat.succ_pos fuel, fun k hk hlt => absurd hk (Nat.not_le.mpr hlt),
        .inr ⟨le_rfl, hone⟩⟩, ?_⟩
      rw [executeFrom, if_pos hcalm, decide_eq_true ⟨le_rfl, hone⟩]
      rfl
    · obtain ⟨r, hstops, hr⟩ := ih (done + 1) s.iterate
      refine ⟨r + 1, hstops.succ hcalm, ?_⟩
      rw [executeFrom, if_neg hcalm, hr, iterateN_succ, Nat.add_right_comm, Nat.add_assoc]
      -- After no further iterations it is the energy of the first one that was found too high.
      cases r with
      | zero =>
        have hloud : ¬(s.iterate.iterateN 0).kineticEnergy < threshold := hcalm
        simp [hloud]
      | succ r => simp

/-- An execution that is let go on until the energy is small stops there or before. -/
theorem executeFrom_converged {k : Nat} (hk : k < fuel)
    (h : (s.iterateN (k + 1)).kineticEnergy < threshold) (done : Nat) :
    (s.executeFrom threshold done fuel).2.converged = true := by
  obtain ⟨r, hstops, hr⟩ := executeFrom_eq threshold fuel done s
  have hle : r ≤ k + 1 := Nat.le_of_not_lt fun hlt => hstops.not_before (k + 1) k.succ_pos hlt h
  rw [hr]
  apply decide_eq_true
  obtain hspent | hcalm := hstops.spent_or_calm
  · have hlast : r = k + 1 := Nat.le_antisymm hle (hspent ▸ hk)
    exact hlast ▸ ⟨k.succ_pos, h⟩
  · exact hcalm

theorem StopsAfter.isLeast_or (h : s.StopsAfter threshold fuel r) :
    IsLeast (s.calm ⟨fuel, threshold⟩) r ∨ s.calm ⟨fuel, threshold⟩ = ∅ ∧ r = fuel := by
  have hleast : ∀ k ∈ s.calm ⟨fuel, threshold⟩, r ≤ k := fun k hk =>
    Nat.le_of_not_lt fun hlt => h.not_before k hk.1.1 hlt hk.2
  by_cases hcalm : 1 ≤ r ∧ (s.iterateN r).kineticEnergy < threshold
  · exact .inl ⟨⟨⟨hcalm.1, h.le_fuel⟩, hcalm.2⟩, hleast⟩
  · have hr : r = fuel := h.spent_or_calm.resolve_right hcalm
    refine .inr ⟨Set.eq_empty_of_forall_notMem fun k hk => hcalm ?_, hr⟩
    have hkr : k = r := Nat.le_antisymm (hr ▸ hk.1.2) (hleast k hk)
    exact hkr ▸ ⟨hk.1.1, hk.2⟩

/-! ## Going on -/

/-- Iterations done before count towards those reported, and for nothing else. -/
theorem executeFrom_done (threshold : α) (done fuel : Nat) (s : Solver α) :
    s.executeFrom threshold done fuel =
      ((s.executeFrom threshold 0 fuel).1,
        { (s.executeFrom threshold 0 fuel).2 with
          iterations := done + (s.executeFrom threshold 0 fuel).2.iterations }) := by
  induction fuel generalizing done s with
  | zero => rfl
  | succ fuel ih =>
    rw [executeFrom, executeFrom]
    split
    · rfl
    · rw [ih (done + 1), ih 1, Nat.add_assoc]

/-- More fuel is of use to an execution that has not converged, which goes on where it was left. -/
theorem executeFrom_add (threshold : α) (done a b : Nat) (s : Solver α) :
    s.executeFrom threshold done (a + b) =
      if (s.executeFrom threshold done a).2.converged then s.executeFrom threshold done a
      else (s.executeFrom threshold done a).1.executeFrom threshold
        (s.executeFrom threshold done a).2.iterations b := by
  induction a generalizing done s with
  | zero => rw [Nat.zero_add]; rfl
  | succ a ih =>
    rw [Nat.succ_add_eq_add_succ, Nat.add_succ, executeFrom, executeFrom]
    split
    · rfl
    · exact ih (done + 1) s.iterate

/-! ## Executions -/

/-- An execution goes the way of plain iterations. It reports how many of them it ran and the energy
that they end with, and has converged exactly when it ran one and this energy is below the threshold.
It stops at the least number of iterations to which that applies, or, where it applies to none, at the
most allowed. So one that is allowed none leaves the solver alone, and one that has not converged and is
followed by another comes to the same as a single one that is allowed the iterations of both. -/
theorem execute_refines_iterateN (s : Solver α) :
    (∀ (bounds : ExecutionBounds α) (s' : Solver α) (report : ExecutionReport α),
      s.execute bounds = (s', report) →
      s' = s.iterateN report.iterations ∧ report.iterations ≤ bounds.maxIterations ∧
      s'.iteration = s.iteration + report.iterations ∧
      report.kineticEnergy = s'.kineticEnergy ∧
      (report.converged = true ↔
        1 ≤ report.iterations ∧ report.kineticEnergy < bounds.energyThreshold) ∧
      (IsLeast (s.calm bounds) report.iterations ∨
        s.calm bounds = ∅ ∧ report.iterations = bounds.maxIterations)) ∧
    (∀ threshold : α, s.execute ⟨0, threshold⟩ = (s, ⟨0, s.kineticEnergy, false⟩)) ∧
    ∀ (threshold : α) (a b : Nat) (s₁ s₂ : Solver α) (report₁ report₂ : ExecutionReport α),
      s.execute ⟨a, threshold⟩ = (s₁, report₁) → report₁.converged = false →
      s₁.execute ⟨b, threshold⟩ = (s₂, report₂) →
      s.execute ⟨a + b, threshold⟩ =
        (s₂, { report₂ with iterations := report₁.iterations + report₂.iterations }) := by
  refine ⟨fun bounds s' report h => ?_, fun threshold => rfl,
    fun threshold a b s₁ s₂ report₁ report₂ h₁ hloud h₂ => ?_⟩
  · obtain ⟨r, hstops, hr⟩ :=
      executeFrom_eq bounds.energyThreshold bounds.maxIterations 0 s
    rw [execute, hr, Nat.zero_add] at h
    cases h
    exact ⟨rfl, hstops.le_fuel, iteration_iterateN s r, rfl, decide_eq_true_iff,
      hstops.isLeast_or⟩
  · unfold execute at h₁ h₂ ⊢
    rw [executeFrom_add, h₁, if_neg (Bool.eq_false_iff.mp hloud), executeFrom_done, h₂]

end Relaxation.Solver
