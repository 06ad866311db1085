import Relaxation.Proofs.Goal.Parameter
import Relaxation.Scalar.Binary64

/-!
# Changing goals in place

`Goal.change` gives a new goal and keeps the old one. Here a change is a program that writes to one
goal as it goes, so that what was written before a fault would stay. The weight is the first thing
written, and its own check the last one made: a goal that a change is refused by is left as it was
(`Goal.changeM_run`), and one that takes it takes exactly the values supplied
(`Goal.changes_whole`).
-/

namespace Relaxation

variable {α : Type}

/-- A program that reads and writes one goal. What it has written stays when it stops at a fault. -/
abbrev Goal.Edit (α β : Type) := EStateM (Fault α) (Goal α) β

variable {β γ : Type} [Scalar α]

/-! ## Programs on a goal -/

namespace Goal

/-- Stops at the fault of a check that does not pass. -/
def checkM (x : Checked α β) : Edit α β := MonadExcept.ofExcept x

/-- Checks a new weight, if there is one, and writes it. -/
def changeWeightM (weight : Option α) : Edit α Unit := do
  if let some w := weight then
    checkM (requireWeight (.goal (← get).kind) w)
    modify fun g => { g with weight := w }

/-- Changes the weight and then writes a new value, if there is one, with which `make` makes the
new aim. -/
def writeM (weight : Option α) (new : Option β) (make : β → Aim α) : Edit α Unit := do
  changeWeightM weight
  if let some b := new then
    modify fun g => { g with aim := make b }

end Goal

open Goal in
/-- The checks and writes of a change, in their order, for each kind of goal. -/
def Aim.changeM (aim : Aim α) (a : Amendment α) (weight : Option α) : Goal.Edit α Unit :=
  match aim, a with
  | anchor _, .anchor target => do
    checkM (target.forM (requireFinitePoint (.goal .anchor) "target"))
    writeM weight target anchor
  | force _, .force push => do
    checkM (push.forM (requireFinitePoint (.goal .force) "force"))
    writeM weight push force
  | length _, .length rest => do
    checkM (rest.forM (requireNonNegative (.goal .length) "length"))
    writeM weight rest length
  | clampLength oldMin oldMax, .clampLength min max => do
    checkM (checkRange (min.getD oldMin) (max.getD oldMax))
    writeM weight (some (min.getD oldMin, max.getD oldMax)) fun (min, max) => clampLength min max
  | direction _, .direction along => do
    let unit ← checkM (along.mapM checkedDirection)
    writeM weight unit direction
  | angle _, .angle size => do
    checkM (size.forM checkAngle)
    writeM weight size angle
  | onLine _, .onLine line => writeM weight line onLine
  | onPlane _, .onPlane plane => writeM weight plane onPlane
  | onCurve _, .onCurve curve => writeM weight curve onCurve
  | onSurface _, .onSurface surface => writeM weight surface onSurface
  | floor _, .floor height => do
    checkM (height.forM (requireFinite (.goal .floor) "height"))
    writeM weight height floor
  | sphereCollision _, .sphereCollision radius => do
    checkM (radius.forM (requireNonNegative (.goal .sphereCollision) "radius"))
    writeM weight radius sphereCollision
  | sphereStaticLineCollision segments _, .sphereStaticLineCollision radius => do
    checkM (radius.forM (requireNonNegative (.goal .sphereStaticLineCollision) "radius"))
    writeM weight radius (sphereStaticLineCollision segments)
  | constantPressure faces _, .constantPressure pressure => do
    checkM (pressure.forM (requireFinite (.goal .constantPressure) "pressure"))
    writeM weight pressure (constantPressure faces)
  | constantVolumePressure faces _, .constantVolumePressure amount => do
    checkM (amount.forM (requireFinite (.goal .constantVolumePressure) "volume_constant"))
    writeM weight amount (constantVolumePressure faces)
  | directionalWind faces _, .directionalWind wind => do
    checkM (wind.forM (requireFinitePoint (.goal .directionalWind) "wind"))
    writeM weight wind (directionalWind faces)
  | shapeMatching shape _, .shapeMatching allowScaling =>
    writeM weight allowScaling (shapeMatching shape)
  | _, _ => changeWeightM weight

namespace Goal

/-- Changes a goal. -/
def changeM (a : Amendment α) (weight : Option α) : Edit α Unit := do
  (← get).aim.changeM a weight

/-! ## What a program leaves -/

/-- What an operation that may be refused makes of a goal: the new one, or else the old one beside
the fault. -/
def resolve (g : Goal α) : Checked α (Goal α) → EStateM.Result (Fault α) (Goal α) Unit
  | .ok g' => .ok () g'
  | .error f => .error f g

theorem changeWeightM_run (weight : Option α) (g : Goal α) :
    (changeWeightM weight).run g =
      g.resolve (do
        weight.forM (requireWeight (.goal g.kind))
        return { g with weight := weight.getD g.weight }) := by
  cases weight with
  | none => rfl
  | some w =>
    change (checkM (requireWeight (.goal g.kind) w) >>= _).run g = g.resolve
      (requireWeight (.goal g.kind) w >>= _)
    cases requireWeight (.goal g.kind) w <;> rfl

theorem writeM_run {weight : Option α} {new : Option β} {make : β → Aim α} {g : Goal α}
    {aim : Aim α} (haim : (new.map make).getD g.aim = aim) :
    (writeM weight new make).run g =
      g.resolve (do
        weight.forM (requireWeight (.goal g.kind))
        return { g with aim, weight := weight.getD g.weight }) := by
  subst haim
  unfold writeM
  rw [EStateM.run_bind, changeWeightM_run]
  cases weight.forM (requireWeight (.goal g.kind)) with
  | error f => rfl
  | ok u => cases new <;> rfl

/-- A check in front of the writes stops them all. -/
theorem checkM_writeM_run {x : Checked α γ} {weight : Option α} {new : γ → Option β}
    {make : β → Aim α} {g : Goal α} {aim : γ → Aim α}
    (haim : ∀ c, ((new c).map make).getD g.aim = aim c) :
    (checkM x >>= fun c => writeM weight (new c) make).run g =
      g.resolve (do
        let aim ← x >>= fun c => pure (aim c)
        weight.forM (requireWeight (.goal g.kind))
        return { g with aim, weight := weight.getD g.weight }) := by
  cases x with
  | error f => rfl
  | ok c => exact writeM_run (haim c)

/-- A change in place comes to the same as a change that gives a new goal: where that one is
refused, nothing has been written. -/
theorem changeM_run (a : Amendment α) (weight : Option α) (g : Goal α) :
    (changeM a weight).run g = g.resolve (g.change a weight) := by
  obtain ⟨aim, w, starts, nodes, moves, weights⟩ := g
  change (aim.changeM a weight).run _ = _
  unfold change
  fun_cases Aim.amend aim a
  case case4 => exact checkM_writeM_run fun _ => rfl
  case case5 => exact checkM_writeM_run fun unit => by cases unit <;> rfl
  case case7 new | case8 new | case9 new | case10 new | case17 new =>
    exact writeM_run (by cases new <;> rfl)
  -- An amendment without a parameter, or for another kind of goal.
  case case18 =>
    simp only [Aim.changeM]
    exact changeWeightM_run ..
  case case1 new | case2 new | case3 new | case6 new | case11 new | case12 new | case13 new
    | case14 new | case15 new | case16 new =>
    exact checkM_writeM_run fun _ => by cases new <;> rfl

/-! ## All or nothing -/

/-- The second goal is the first one with the values that an amendment and a new weight supply. -/
structure Takes (g : Goal α) (a : Amendment α) (weight : Option α) (g' : Goal α) : Prop where
  aim_takes : g.aim.Takes a g'.aim
  weight_eq : g'.weight = weight.getD g.weight
  starts_eq : g'.starts = g.starts
  nodes_eq : g'.nodes = g.nodes
  moves_eq : g'.moves = g.moves
  weights_eq : g'.weights = g.weights

theorem change_eq_ok_iff_takes {g g' : Goal α} {a : Amendment α} {weight : Option α}
    (h : g.kind = a.kind) :
    g.change a weight = .ok g' ↔
      (a.Acceptable g.aim ∧ ∀ w ∈ weight, Usable w) ∧ g.Takes a weight g' := by
  rw [change_eq_ok_iff]
  simp only [Aim.amend_eq_ok_iff (Aim.suits_of_kind_eq h)]
  constructor
  · rintro ⟨aim, ⟨hacceptable, htakes⟩, hweight, rfl⟩
    exact ⟨⟨hacceptable, hweight⟩, htakes, rfl, rfl, rfl, rfl, rfl⟩
  · rintro ⟨⟨hacceptable, hweight⟩, htakes⟩
    refine ⟨g'.aim, ⟨hacceptable, htakes.aim_takes⟩, hweight, ?_⟩
    rw [← htakes.weight_eq, ← htakes.starts_eq, ← htakes.nodes_eq, ← htakes.moves_eq,
      ← htakes.weights_eq]

/-- A change in place is taken up as a whole or not at all. It stops at a fault exactly when a value
supplied is of no use, and then the goal is what it was; otherwise the parameters and the weight
supplied take their new values, and nothing else is touched. -/
theorem changes_whole {g : Goal α} {a : Amendment α} (h : g.kind = a.kind) (weight : Option α) :
    (∀ f g', (changeM a weight).run g = .error f g' → g' = g) ∧
    (∀ g', (changeM a weight).run g = .ok () g' ↔
      (a.Acceptable g.aim ∧ ∀ w ∈ weight, Usable w) ∧ g.Takes a weight g') ∧
    ∀ g', (changeM a weight).run g = .ok () g' ↔ g.change a weight = .ok g' := by
  have hok : ∀ g', (changeM a weight).run g = .ok () g' ↔ g.change a weight = .ok g' := by
    intro g'
    rw [changeM_run]
    cases g.change a weight <;> simp [resolve]
  refine ⟨fun f g' hrun => ?_, fun g' => (hok g').trans (change_eq_ok_iff_takes h), hok⟩
  rw [changeM_run] at hrun
  cases hchange : g.change a weight with
  | error e =>
    rw [hchange] at hrun
    cases hrun
    rfl
  | ok g₁ =>
    rw [hchange] at hrun
    cases hrun

/-- A range of which only the lower bound is new is checked against the old upper bound: here it is
taken up with its weight. With a weight that is not a number it is not, and nothing is written. -/
theorem changes_whole_range :
    let g := ofAim (.clampLength (Binary64.ofFloat 1) (Binary64.ofFloat 3)) [0, Vec3.xAxis] 1
    let a := Amendment.clampLength (some (Binary64.ofFloat 2)) none
    let nan := Binary64.ofFloat (0.0 / 0.0)
    (changeM a (some (Binary64.ofFloat 5))).run g =
      .ok () { g with
        aim := .clampLength (Binary64.ofFloat 2) (Binary64.ofFloat 3)
        weight := Binary64.ofFloat 5 } ∧
    ∃ f, (changeM a (some nan)).run g = .error f g := by
  intro g a nan
  have hkind : g.kind = a.kind := rfl
  constructor
  · refine ((changes_whole hkind (some (Binary64.ofFloat 5))).2.1 _).mpr ⟨⟨?_, ?_⟩, ?_⟩
    · rintro oldMin oldMax ⟨⟩
      exact ⟨⟨by decide, by decide⟩, ⟨by decide, by decide⟩, by decide⟩
    · simp only [Option.mem_some_iff, forall_eq']
      exact ⟨by decide, by decide⟩
    · refine ⟨⟨Eq.refl GoalKind.clampLength, Eq.refl Fixture.nothing, fun p => ?_⟩, rfl, rfl, rfl,
        rfl, rfl⟩
      cases p <;> rfl
  · have hwhole := changes_whole hkind (some nan)
    cases hrun : (changeM a (some nan)).run g with
    | ok u g' =>
      have hnan := ((hwhole.2.1 g').mp hrun).1.2 nan rfl
      exact absurd hnan.1 (by decide)
    | error f g' => rw [hwhole.1 f g' hrun]; exact ⟨f, rfl⟩

end Goal
end Relaxation
