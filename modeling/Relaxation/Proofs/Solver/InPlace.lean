import Relaxation.Proofs.Solver.Attach

/-!
# Attaching in place

The operations of `Relaxation.Solver.Basic` give back a new solver and keep the old one. Here they
are programs that write to one solver as they go, so that what was written before a fault would
stay. Both do the same (`Solver.addGoalWithThresholdM_outcome`, `Solver.addGoalsM_outcome`): a goal
is checked before anything is written, and whether it passes does not depend on the solver
(`Goal.inspect`). So a goal is attached as a whole or not at all, and of several goals those before
the first that is refused are attached (`Solver.attaches_whole`).
-/

namespace Relaxation

variable {α : Type}

/-! ## What is checked of a goal -/

namespace Goal

/-- The checks that a goal passes before it is attached. They look at nothing but the goal. -/
def inspect (g : Goal α) : Checked α Unit := do
  if g.nodeCount == 0 then throw (.tooFewNodes (.goal g.kind) 1 0)
  g.validate

/-- A goal with no starting position, or with a buffer that is not as long as the list of starting
positions; the list of nodes may be empty. -/
def Unfit (g : Goal α) : Prop :=
  g.starts = [] ∨ g.moves.length ≠ g.starts.length ∨ g.weights.length ≠ g.starts.length ∨
    g.nodes ≠ [] ∧ g.nodes.length ≠ g.starts.length

theorem inspect_eq_error {g : Goal α} (h : g.nodeCount = 0) :
    g.inspect = .error (.tooFewNodes (.goal g.kind) 1 0) := by
  rw [inspect, h]
  rfl

theorem inspect_eq_validate {g : Goal α} (h : g.nodeCount ≠ 0) : g.inspect = g.validate := by
  simp [inspect, h]

/-- Of the buffers of a goal only the lengths are checked. -/
theorem inspect_eq_ok_iff_not_unfit {g : Goal α} : g.inspect = .ok () ↔ ¬g.Unfit := by
  unfold Unfit
  by_cases h : g.nodeCount = 0
  · simp [inspect_eq_error h, List.length_eq_zero_iff.mp h]
  · have hstarts : g.starts ≠ [] := fun hnil => h (List.length_eq_zero_iff.mpr hnil)
    rw [inspect_eq_validate h, validate_eq_ok_iff]
    simp only [hstarts, nodeCount, ne_eq, false_or, not_or, Decidable.not_not,
      Decidable.not_and_iff_not_or_not]

end Goal

/-! ## Programs on a solver -/

/-- A program that reads and writes one solver. What it has written stays when it stops at a
fault. -/
abbrev InPlace (α β : Type) := ExceptT (Fault α) (StateM (Solver α)) β

namespace InPlace

variable {β γ : Type}

/-- What a program comes to, with the solver that it leaves. -/
def outcome (x : InPlace α β) (s : Solver α) : Checked α β × Solver α := (x.run.run s).run

@[simp] theorem outcome_pure (b : β) (s : Solver α) :
    (pure b : InPlace α β).outcome s = (.ok b, s) := rfl

@[simp] theorem outcome_throw (f : Fault α) (s : Solver α) :
    (throw f : InPlace α β).outcome s = (.error f, s) := rfl

@[simp] theorem outcome_ofExcept (x : Checked α β) (s : Solver α) :
    (MonadExcept.ofExcept x : InPlace α β).outcome s = (x, s) := by
  cases x <;> rfl

@[simp] theorem outcome_get (s : Solver α) : (get : InPlace α (Solver α)).outcome s = (.ok s, s) :=
  rfl

@[simp] theorem outcome_modify (f : Solver α → Solver α) (s : Solver α) :
    (modify f : InPlace α PUnit).outcome s = (.ok (), f s) := rfl

@[simp] theorem outcome_liftM (x : StateM (Solver α) β) (s : Solver α) :
    (liftM x : InPlace α β).outcome s = (.ok (x.run s).run.1, (x.run s).run.2) := rfl

/-- A fault leaves the solver as it is at that point. -/
theorem outcome_bind (x : InPlace α β) (f : β → InPlace α γ) (s : Solver α) :
    (x >>= f).outcome s =
      match x.outcome s with
      | (.ok b, s') => (f b).outcome s'
      | (.error e, s') => (.error e, s') := by
  unfold outcome
  rw [ExceptT.run_bind, StateT.run_bind, Id.run_bind]
  rcases (x.run.run s).run with ⟨_ | _, _⟩ <;> rfl

end InPlace

namespace Solver

variable [Scalar α]

/-- Finds the node of a position, or appends one with its tally. -/
def placeM (threshold : α) (p : Vec3 α) : StateM (Solver α) Nat := do
  match (← get).nodes.firstWithin? threshold p with
  | some i => return i
  | none =>
    modify fun s => { s with nodes := s.nodes.push (Node.atRest p) }
    modify fun s => { s with tallies := s.tallies.push Tally.zero }
    return (← get).nodes.size - 1

/-- Places positions one after the other and tells their places. -/
def placeAllM (threshold : α) (ps : List (Vec3 α)) : StateM (Solver α) (List Nat) :=
  ps.mapM (placeM threshold)

/-- Attaches a goal and tells its place. -/
def addGoalWithThresholdM (g : Goal α) (threshold : α) : InPlace α Nat := do
  if g.nodeCount == 0 then throw (.tooFewNodes (.goal g.kind) 1 0)
  MonadExcept.ofExcept g.validate
  let places ← placeAllM threshold g.starts
  modify fun s => { s with goals := s.goals.push { g with nodes := places } }
  return (← get).goals.size - 1

/-- Attaches a goal with the threshold of the settings. -/
def addGoalM (g : Goal α) : InPlace α Nat := do
  addGoalWithThresholdM g (← get).params.mergeThreshold

/-- Attaches goals one after the other until one is refused. -/
def addGoalsM : List (Goal α) → InPlace α Unit
  | [] => return
  | g :: gs => do
    let _ ← addGoalM g
    addGoalsM gs

theorem placeM_run (threshold : α) (p : Vec3 α) (s : Solver α) :
    (placeM threshold p).run s = pure ((s.place threshold p).2, (s.place threshold p).1) := by
  rcases place_eq_or threshold s p with ⟨i, hfound, hplace⟩ | ⟨hfound, hplace⟩
  · simp [placeM, hfound, hplace]
  · simp [placeM, hfound, hplace, addNode]

theorem placeAllM_run (threshold : α) (ps : List (Vec3 α)) (s : Solver α) :
    (placeAllM threshold ps).run s =
      pure ((s.placeAll threshold ps).2, (s.placeAll threshold ps).1) := by
  unfold placeAllM
  induction ps generalizing s with
  | nil => rfl
  | cons p ps ih => simp [List.mapM_cons, placeM_run, ih, placeAll]

theorem addGoalWithThreshold_eq (s : Solver α) (g : Goal α) (threshold : α) :
    s.addGoalWithThreshold g threshold = g.inspect.map fun _ => s.attach threshold g := by
  unfold addGoalWithThreshold attach
  by_cases h : g.nodeCount = 0
  · rw [Goal.inspect_eq_error h, h]
    rfl
  · rw [Goal.inspect_eq_validate h]
    cases g.validate with
    | error f => simp [h, bind, Except.bind, Except.map]
    | ok u => simp [h, bind, Except.bind, Except.map, pure, Except.pure]

/-- The checks come before the first write, so a goal that is refused leaves no trace. -/
theorem addGoalWithThresholdM_outcome (g : Goal α) (threshold : α) (s : Solver α) :
    (addGoalWithThresholdM g threshold).outcome s =
      match s.addGoalWithThreshold g threshold with
      | .ok s' => (.ok s.goals.size, s')
      | .error f => (.error f, s) := by
  rw [addGoalWithThreshold_eq]
  unfold addGoalWithThresholdM
  by_cases h : g.nodeCount = 0
  · simp [Goal.inspect_eq_error h, h, Except.map]
  · rw [Goal.inspect_eq_validate h]
    cases g.validate with
    | error f => simp [h, InPlace.outcome_bind, Except.map]
    | ok u =>
      simp [h, InPlace.outcome_bind, placeAllM_run, goals_placeAll, attach, Except.map,
        -bind_pure_comp]

theorem addGoalM_outcome (g : Goal α) (s : Solver α) :
    (addGoalM g).outcome s =
      match s.addGoal g with
      | .ok s' => (.ok s.goals.size, s')
      | .error f => (.error f, s) := by
  rw [addGoalM, InPlace.outcome_bind]
  exact addGoalWithThresholdM_outcome g s.params.mergeThreshold s

/-- Goals before the one that is refused stay attached. -/
theorem addGoalsM_outcome (gs : List (Goal α)) (s : Solver α) :
    (addGoalsM gs).outcome s =
      match s.addGoals gs with
      | (s', none) => (.ok (), s')
      | (s', some f) => (.error f, s') := by
  induction gs generalizing s with
  | nil => rfl
  | cons g gs ih =>
    rw [addGoalsM, InPlace.outcome_bind, addGoalM_outcome, addGoals]
    cases s.addGoal g with
    | error f => rfl
    | ok s' => exact ih s'

/-! ## What is refused, and what is then attached -/

/-- Whether a goal is refused, and the fault, depend on the goal alone. -/
theorem addGoalWithThreshold_eq_error_iff {s : Solver α} {g : Goal α} {threshold : α}
    {f : Fault α} : s.addGoalWithThreshold g threshold = .error f ↔ g.inspect = .error f := by
  rw [addGoalWithThreshold_eq]
  cases g.inspect with
  | error e => simp [Except.map]
  | ok u => simp [Except.map]

theorem exists_addGoalWithThreshold_eq_error_iff {s : Solver α} {g : Goal α} {threshold : α} :
    (∃ f, s.addGoalWithThreshold g threshold = .error f) ↔ g.Unfit := by
  simp only [addGoalWithThreshold_eq_error_iff]
  have hfit : g.inspect = .ok () ↔ ¬g.Unfit := Goal.inspect_eq_ok_iff_not_unfit
  cases hinspect : g.inspect with
  | error f => simpa [hinspect] using hfit
  | ok u => simpa [hinspect] using hfit

/-- Goals are attached one by one up to the first that is refused, if there is one. -/
theorem addGoals_eq_or (s : Solver α) (gs : List (Goal α)) :
    (∃ s', (∀ g ∈ gs, ¬g.Unfit) ∧ gs.foldlM addGoal s = .ok s' ∧ s.addGoals gs = (s', none)) ∨
    ∃ before g after f s', gs = before ++ g :: after ∧ (∀ g ∈ before, ¬g.Unfit) ∧
      g.inspect = .error f ∧ before.foldlM addGoal s = .ok s' ∧ s.addGoals gs = (s', some f) := by
  induction gs generalizing s with
  | nil => exact .inl ⟨s, by simp, rfl, rfl⟩
  | cons g gs ih =>
    cases hadd : s.addGoal g with
    | error f =>
      have hinspect : g.inspect = .error f := addGoalWithThreshold_eq_error_iff.mp hadd
      refine .inr ⟨[], g, gs, f, s, rfl, by simp, hinspect, rfl, ?_⟩
      rw [addGoals, hadd]
    | ok s₁ =>
      have hfit : ¬g.Unfit := by
        intro hunfit
        obtain ⟨f, hf⟩ := exists_addGoalWithThreshold_eq_error_iff.mpr hunfit
        cases hadd.symm.trans hf
      have hcons : ∀ before, (g :: before).foldlM addGoal s = before.foldlM addGoal s₁ := by
        intro before
        rw [List.foldlM_cons, hadd]
        rfl
      have hgoals : s.addGoals (g :: gs) = s₁.addGoals gs := by rw [addGoals, hadd]
      rcases ih s₁ with
        ⟨s', hfits, hfold, heq⟩ | ⟨before, g', after, f, s', rfl, hfits, hinspect, hfold, heq⟩
      · exact .inl ⟨s', List.forall_mem_cons.mpr ⟨hfit, hfits⟩, (hcons gs).trans hfold,
          hgoals.trans heq⟩
      · exact .inr ⟨g :: before, g', after, f, s', rfl, List.forall_mem_cons.mpr ⟨hfit, hfits⟩,
          hinspect, (hcons before).trans hfold, hgoals.trans heq⟩

/-- A goal is attached exactly when its buffers are fit for it, and a solver that a goal is refused
by is left as it was. Of several goals those before the first that any solver refuses are attached,
as they are one by one, and its fault is the fault of the whole. -/
theorem attaches_whole (s : Solver α) :
    (∀ (g : Goal α) (threshold : α),
      ((∃ f, s.addGoalWithThreshold g threshold = .error f) ↔ g.Unfit) ∧
      (addGoalWithThresholdM g threshold).outcome s =
        match s.addGoalWithThreshold g threshold with
        | .ok s' => (.ok s.goals.size, s')
        | .error f => (.error f, s)) ∧
    ∀ gs : List (Goal α),
      (∃ s', (∀ g ∈ gs, ¬g.Unfit) ∧ gs.foldlM addGoal s = .ok s' ∧
        s.addGoals gs = (s', none) ∧ (addGoalsM gs).outcome s = (.ok (), s')) ∨
      ∃ before g after f s', gs = before ++ g :: after ∧ (∀ g ∈ before, ¬g.Unfit) ∧
        (∀ (s₀ : Solver α) (threshold : α), s₀.addGoalWithThreshold g threshold = .error f) ∧
        before.foldlM addGoal s = .ok s' ∧
        s.addGoals gs = (s', some f) ∧ (addGoalsM gs).outcome s = (.error f, s') := by
  refine ⟨fun g threshold => ⟨exists_addGoalWithThreshold_eq_error_iff,
    addGoalWithThresholdM_outcome g threshold s⟩, fun gs => ?_⟩
  rcases addGoals_eq_or s gs with
    ⟨s', hfits, hfold, heq⟩ | ⟨before, g, after, f, s', hgs, hfits, hinspect, hfold, heq⟩
  · exact .inl ⟨s', hfits, hfold, heq, by rw [addGoalsM_outcome, heq]⟩
  · exact .inr ⟨before, g, after, f, s', hgs, hfits,
      fun s₀ threshold => addGoalWithThreshold_eq_error_iff.mpr hinspect, hfold, heq,
      by rw [addGoalsM_outcome, heq]⟩

end Solver
end Relaxation
