import Relaxation.Proofs.Goal.Proper
import Relaxation.Proofs.Solver.Reachable
import Relaxation.Scenario

/-!
# Scenarios that can be built

Attaching never refuses a goal that a constructor made (`Goal.Made.addGoalWithThreshold_eq`). So a
scenario can be built when each of its entries can, and its solver is then a new one with the goals
and after them the binders attached (`Scenario.build_eq_ok_iff`). Otherwise the first entry that
cannot be built decides the fault (`Scenario.build_eq_error_iff`).
-/

namespace Relaxation

variable {α : Type}

/-! ## Lists of entries -/

namespace Checked

variable {β γ δ : Type} {build : β → Checked α γ} {bs : List β}

/-- The first of the entries that cannot be built gives the fault. -/
def FirstFault (build : β → Checked α γ) (bs : List β) (f : Fault α) : Prop :=
  ∃ before b after, bs = before ++ b :: after ∧ (∀ b ∈ before, ∃ c, build b = .ok c) ∧
    build b = .error f

/-- Building a list succeeds when every entry does, and gives the results in order. -/
theorem mapM_eq_ok_iff {cs : List γ} : bs.mapM build = .ok cs ↔ bs.map build = cs.map .ok := by
  induction bs generalizing cs with
  | nil => cases cs <;> simp [pure, Except.pure]
  | cons b bs ih =>
    rw [List.mapM_cons]
    cases cs with
    | nil => simp [bind_eq_ok, -bind_pure_comp, pure_eq_ok]
    | cons c cs => simp [bind_eq_ok, -bind_pure_comp, pure_eq_ok, ih]

theorem exists_mapM_eq_ok_iff :
    (∃ cs, bs.mapM build = .ok cs) ↔ ∀ b ∈ bs, ∃ c, build b = .ok c := by
  induction bs with
  | nil => simp [pure, Except.pure]
  | cons b bs ih =>
    rw [List.forall_mem_cons, ← ih, List.mapM_cons]
    simp only [bind_eq_ok, pure_eq_ok]
    constructor
    · rintro ⟨_, c, hc, cs, hcs, _⟩
      exact ⟨⟨c, hc⟩, cs, hcs⟩
    · rintro ⟨⟨c, hc⟩, cs, hcs⟩
      exact ⟨c :: cs, c, hc, cs, hcs, rfl⟩

theorem firstFault_cons {b : β} {f : Fault α} :
    FirstFault build (b :: bs) f ↔
      build b = .error f ∨ (∃ c, build b = .ok c) ∧ FirstFault build bs f := by
  constructor
  · rintro ⟨_ | ⟨b', before⟩, b'', after, heq, hbefore, hf⟩
    · cases heq
      exact .inl hf
    · cases heq
      obtain ⟨hb, hbefore⟩ := List.forall_mem_cons.mp hbefore
      exact .inr ⟨hb, before, b'', after, rfl, hbefore, hf⟩
  · rintro (hf | ⟨hb, before, b', after, rfl, hbefore, hf⟩)
    · exact ⟨[], b, bs, rfl, by simp, hf⟩
    · exact ⟨b :: before, b', after, rfl, List.forall_mem_cons.mpr ⟨hb, hbefore⟩, hf⟩

/-- The fault is that of the first entry that has one. -/
theorem mapM_eq_error_iff {f : Fault α} :
    bs.mapM build = .error f ↔ FirstFault build bs f := by
  induction bs with
  | nil => simp [FirstFault, pure, Except.pure]
  | cons b bs ih =>
    rw [firstFault_cons, ← ih, List.mapM_cons]
    cases build b with
    | error e => simp [bind, Except.bind]
    | ok c => cases bs.mapM build <;> simp [bind, Except.bind, pure, Except.pure]

/-- Building the entries as they are put in is building them all first. -/
theorem foldlM_eq_map {put : δ → γ → δ} {step : δ → β → Checked α δ}
    (hstep : ∀ d b, step d b = (build b).map (put d)) (d : δ) :
    bs.foldlM step d = (bs.mapM build).map (List.foldl put d) := by
  induction bs generalizing d with
  | nil => rfl
  | cons b bs ih =>
    rw [List.foldlM_cons, List.mapM_cons, hstep]
    cases build b with
    | error e => rfl
    | ok c =>
      refine (ih (put d c)).trans ?_
      cases bs.mapM build <;> rfl

end Checked

/-! ## Entries -/

variable [Scalar α]

/-- A surface is made by the constructor of its shape, which for a sphere checks nothing. -/
theorem SurfaceDescription.built {d : SurfaceDescription α} {shape : Shape α}
    (h : d.build = .ok shape) : shape.Built := by
  cases d with
  | plane origin normal =>
    obtain ⟨plane, hplane, h⟩ := Checked.bind_eq_ok.mp h
    cases Checked.pure_eq_ok.mp h
    exact .plane hplane
  | sphere center radius =>
    cases h
    exact .sphere _
  | mesh vertices faces =>
    obtain ⟨mesh, hmesh, h⟩ := Checked.bind_eq_ok.mp h
    cases Checked.pure_eq_ok.mp h
    exact .mesh hmesh

/-- A description is built by the constructor of its goal, after that of its line, plane, curve or
surface. -/
theorem GoalDescription.made_and_shapes_built {d : GoalDescription α} {g : Goal α}
    (h : d.build = .ok g) : g.Made ∧ ∀ shape ∈ g.aim.shapes, shape.Built := by
  cases d with
  | anchor =>
    obtain ⟨_, _, rfl⟩ := Goal.anchor_eq_ok_iff.mp h
    exact ⟨.anchor h, nofun⟩
  | force =>
    obtain ⟨_, _, _, rfl⟩ := Goal.force_eq_ok_iff.mp h
    exact ⟨.force h, nofun⟩
  | length first last rest weight =>
    cases rest with
    | none =>
      obtain ⟨_, _, rfl⟩ := Goal.length_eq_ok_iff.mp h
      exact ⟨.currentLength h, nofun⟩
    | some rest =>
      obtain ⟨_, _, rfl⟩ := Goal.length_eq_ok_iff.mp h
      exact ⟨.length h, nofun⟩
  | clampLength =>
    obtain ⟨_, _, rfl⟩ := Goal.clampLength_eq_ok_iff.mp h
    exact ⟨.clampLength h, nofun⟩
  | equalLengths =>
    obtain ⟨_, _, rfl⟩ := Goal.equalLengths_eq_ok_iff.mp h
    exact ⟨.equalLengths h, nofun⟩
  | parallelLines =>
    obtain ⟨_, _, rfl⟩ := Goal.parallelLines_eq_ok_iff.mp h
    exact ⟨.parallelLines h, nofun⟩
  | direction =>
    obtain ⟨_, _, _, rfl⟩ := Goal.direction_eq_ok_iff.mp h
    exact ⟨.direction h, nofun⟩
  | angle a vertex c size weight =>
    cases size with
    | none =>
      obtain ⟨_, _, rfl⟩ := Goal.angle_eq_ok_iff.mp h
      exact ⟨.currentAngle h, nofun⟩
    | some size =>
      obtain ⟨_, _, rfl⟩ := Goal.angle_eq_ok_iff.mp h
      exact ⟨.angle h, nofun⟩
  | colinear =>
    obtain ⟨_, _, rfl⟩ := Goal.ofNodes_eq_ok_iff.mp h
    exact ⟨.colinear h, nofun⟩
  | coplanar =>
    obtain ⟨_, _, rfl⟩ := Goal.ofNodes_eq_ok_iff.mp h
    exact ⟨.coplanar h, nofun⟩
  | cocircular =>
    obtain ⟨_, _, rfl⟩ := Goal.ofNodes_eq_ok_iff.mp h
    exact ⟨.cocircular h, nofun⟩
  | cospherical =>
    obtain ⟨_, _, rfl⟩ := Goal.ofNodes_eq_ok_iff.mp h
    exact ⟨.cospherical h, nofun⟩
  | coincident =>
    obtain ⟨_, _, rfl⟩ := Goal.ofNodes_eq_ok_iff.mp h
    exact ⟨.coincident h, nofun⟩
  | onLine =>
    obtain ⟨line, hline, h⟩ := Checked.bind_eq_ok.mp h
    obtain ⟨_, _, rfl⟩ := Goal.ofNodes_eq_ok_iff.mp h
    exact ⟨.onLine h, List.forall_mem_singleton.mpr (.line hline)⟩
  | onPlane =>
    obtain ⟨plane, hplane, h⟩ := Checked.bind_eq_ok.mp h
    obtain ⟨_, _, rfl⟩ := Goal.ofNodes_eq_ok_iff.mp h
    exact ⟨.onPlane h, List.forall_mem_singleton.mpr (.plane hplane)⟩
  | onCurve =>
    obtain ⟨curve, hcurve, h⟩ := Checked.bind_eq_ok.mp h
    obtain ⟨_, _, rfl⟩ := Goal.ofNodes_eq_ok_iff.mp h
    exact ⟨.onCurve h, List.forall_mem_singleton.mpr (.polyline hcurve)⟩
  | onSurface =>
    obtain ⟨surface, hsurface, h⟩ := Checked.bind_eq_ok.mp h
    obtain ⟨_, _, rfl⟩ := Goal.ofNodes_eq_ok_iff.mp h
    exact ⟨.onSurface h, List.forall_mem_singleton.mpr (SurfaceDescription.built hsurface)⟩
  | floor =>
    obtain ⟨_, _, _, rfl⟩ := Goal.floor_eq_ok_iff.mp h
    exact ⟨.floor h, nofun⟩
  | sphereCollision =>
    obtain ⟨_, _, _, rfl⟩ := Goal.sphereCollision_eq_ok_iff.mp h
    exact ⟨.sphereCollision h, nofun⟩
  | sphereStaticLineCollision =>
    obtain ⟨_, _, _, rfl⟩ := Goal.sphereStaticLineCollision_eq_ok_iff.mp h
    exact ⟨.sphereStaticLineCollision h, nofun⟩
  | convexPolygonCollision =>
    obtain ⟨_, _, _, rfl⟩ := Goal.convexPolygonCollision_eq_ok_iff.mp h
    exact ⟨.convexPolygonCollision h, nofun⟩
  | convexPolygonContainment =>
    obtain ⟨_, _, _, _, rfl⟩ := Goal.convexPolygonContainment_eq_ok_iff.mp h
    exact ⟨.convexPolygonContainment h, nofun⟩
  | constantPressure =>
    obtain ⟨_, _, _, rfl⟩ := Goal.constantPressure_eq_ok_iff.mp h
    exact ⟨.constantPressure h, nofun⟩
  | constantVolumePressure =>
    obtain ⟨_, _, _, rfl⟩ := Goal.constantVolumePressure_eq_ok_iff.mp h
    exact ⟨.constantVolumePressure h, nofun⟩
  | directionalWind =>
    obtain ⟨_, _, _, rfl⟩ := Goal.directionalWind_eq_ok_iff.mp h
    exact ⟨.directionalWind h, nofun⟩
  | shapeMatching =>
    obtain ⟨_, _, _, rfl⟩ := Goal.shapeMatching_eq_ok_iff.mp h
    exact ⟨.shapeMatching h, nofun⟩

theorem GoalDescription.made {d : GoalDescription α} {g : Goal α} (h : d.build = .ok g) :
    g.Made :=
  (made_and_shapes_built h).1

theorem GoalDescription.bounded {d : GoalDescription α} {g : Goal α} (h : d.build = .ok g) :
    g.aim.Bounded :=
  fun shape hshape => ((made_and_shapes_built h).2 shape hshape).bounded

omit [Scalar α] in
theorem BinderDescription.built {d : BinderDescription α} {b : Binder α} (h : d.build = .ok b) :
    b.Built := by
  cases d with
  | points => exact .points h
  | polyline => exact .polyline h
  | mesh => exact .mesh h

omit [Scalar α] in
theorem Binder.Built.starts_ne_nil {b : Binder α} (h : b.Built) : b.starts ≠ [] := by
  cases h with
  | points h =>
    obtain ⟨hlen, h⟩ := Checked.check_bind_eq_ok.mp h
    cases Checked.pure_eq_ok.mp h
    exact List.ne_nil_of_length_pos (requireAtLeast_eq_ok_iff.mp hlen)
  | polyline h =>
    obtain ⟨hlen, h⟩ := Checked.check_bind_eq_ok.mp h
    cases Checked.pure_eq_ok.mp h
    exact List.ne_nil_of_length_pos (Nat.lt_of_succ_lt (requireAtLeast_eq_ok_iff.mp hlen))
  | mesh h =>
    obtain ⟨hlen, h⟩ := Checked.check_bind_eq_ok.mp h
    obtain ⟨_, h⟩ := Checked.check_bind_eq_ok.mp h
    cases Checked.pure_eq_ok.mp h
    have hlen := requireAtLeast_eq_ok_iff.mp hlen
    exact List.ne_nil_of_length_pos (Nat.lt_of_lt_of_le (Nat.succ_pos 2) hlen)

/-! ## Attaching what was built -/

theorem Goal.Made.nodes_eq {g : Goal α} (h : g.Made) : g.nodes = [] := by
  obtain ⟨_, _, _, rfl, _⟩ := h.exists_accepted
  rfl

/-- A goal that a constructor made is never refused. -/
theorem Goal.Made.addGoalWithThreshold_eq {g : Goal α} (h : g.Made) (s : Solver α) (threshold : α) :
    s.addGoalWithThreshold g threshold = .ok (s.attach threshold g) := by
  have hstarts : g.nodeCount ≠ 0 := fun hzero =>
    h.proper.starts_ne_nil (List.length_eq_zero_iff.mp hzero)
  have hvalid : g.validate = .ok () :=
    Goal.validate_eq_ok_iff.mpr ⟨h.moves_length, h.weights_length, .inl h.nodes_eq⟩
  exact Solver.addGoalWithThreshold_eq_ok_iff.mpr ⟨hstarts, hvalid, rfl⟩

omit [Scalar α] in
/-- The goal without its nodes. -/
def Goal.detached (g : Goal α) : Goal α := { g with nodes := [] }

omit [Scalar α] in
/-- The binder without its nodes. -/
def Binder.detached (b : Binder α) : Binder α := { b with nodes := [] }

omit [Scalar α] in
/-- Apart from its nodes an attached goal is the goal that was built. -/
theorem Goal.eq_of_detached_eq {g g' : Goal α} (h : g.detached = g'.detached) :
    g' = { g with nodes := g'.nodes } := by
  simp only [detached, mk.injEq, true_and] at h
  obtain ⟨haim, hweight, hstarts, hmoves, hweights⟩ := h
  rw [haim, hweight, hstarts, hmoves, hweights]

omit [Scalar α] in
theorem Binder.eq_of_detached_eq {b b' : Binder α} (h : b.detached = b'.detached) :
    b' = { b with nodes := b'.nodes } := by
  simp only [detached, mk.injEq, and_true] at h
  obtain ⟨hkind, hstarts⟩ := h
  rw [hkind, hstarts]

namespace Solver

/-- The solver with several goals attached, whatever their buffers. -/
def attachAll (s : Solver α) (gs : List (Goal α)) : Solver α :=
  gs.foldl (fun s g => s.attach s.params.mergeThreshold g) s

theorem WellFormed.attachAll {s : Solver α} (h : s.WellFormed) {gs : List (Goal α)}
    (hgs : ∀ g ∈ gs, g.Made ∧ g.aim.Bounded) : (s.attachAll gs).WellFormed := by
  induction gs generalizing s with
  | nil => exact h
  | cons g gs ih =>
    obtain ⟨hg, hgs⟩ := List.forall_mem_cons.mp hgs
    exact ih (h.addGoalWithThreshold (hg.1.sound hg.2) (hg.1.addGoalWithThreshold_eq s _)) hgs

/-- Attaching puts goals at the end, in order, and changes nothing of them but their nodes. -/
theorem goals_attachAll (s : Solver α) (gs : List (Goal α)) :
    (s.attachAll gs).goals.toList.map Goal.detached =
      s.goals.toList.map Goal.detached ++ gs.map Goal.detached := by
  induction gs generalizing s with
  | nil => simp [attachAll]
  | cons g gs ih =>
    refine (ih (s.attach s.params.mergeThreshold g)).trans ?_
    simp [attach, goals_placeAll, Goal.detached]

theorem binders_attachAll (s : Solver α) (gs : List (Goal α)) :
    (s.attachAll gs).binders = s.binders := by
  induction gs generalizing s with
  | nil => rfl
  | cons g gs ih =>
    refine (ih (s.attach s.params.mergeThreshold g)).trans ?_
    exact binders_placeAll s.params.mergeThreshold s g.starts

theorem goals_addBinders (s : Solver α) (bs : List (Binder α)) :
    (s.addBinders bs).goals = s.goals := by
  induction bs generalizing s with
  | nil => rfl
  | cons b bs ih => exact (ih (s.addBinder b)).trans (goals_placeAll _ s b.starts)

theorem binders_addBinders (s : Solver α) (bs : List (Binder α)) :
    (s.addBinders bs).binders.toList.map Binder.detached =
      s.binders.toList.map Binder.detached ++ bs.map Binder.detached := by
  induction bs generalizing s with
  | nil => simp [addBinders]
  | cons b bs ih =>
    refine (ih (s.addBinder b)).trans ?_
    simp [addBinder, addBinderWithThreshold, binders_placeAll, Binder.detached]

end Solver

/-! ## Scenarios -/

namespace Scenario

theorem addGoal_eq (s : Solver α) (d : GoalDescription α) :
    addGoal s d = d.build.map fun g => s.attach s.params.mergeThreshold g := by
  unfold addGoal
  cases hbuild : d.build with
  | error f => rfl
  | ok g => exact (GoalDescription.made hbuild).addGoalWithThreshold_eq s s.params.mergeThreshold

theorem addBinder_eq (s : Solver α) (d : BinderDescription α) :
    addBinder s d = d.build.map s.addBinder := by
  unfold addBinder
  cases d.build <;> rfl

/-- The goals are all built before the binders, and attaching what is built cannot fail. -/
theorem build_eq (d : ScenarioDescription α) :
    build d = do
      let gs ← d.goals.mapM GoalDescription.build
      let bs ← d.binders.mapM BinderDescription.build
      return ⟨((Solver.new d.solver.normalized).attachAll gs).addBinders bs, d.execution⟩ := by
  unfold build
  rw [Checked.foldlM_eq_map addGoal_eq]
  cases d.goals.mapM GoalDescription.build with
  | error f => rfl
  | ok gs =>
    change (d.binders.foldlM addBinder _ >>= _) = _
    rw [Checked.foldlM_eq_map addBinder_eq]
    cases d.binders.mapM BinderDescription.build <;> rfl

theorem build_eq_ok_iff {d : ScenarioDescription α} {x : Scenario α} :
    build d = .ok x ↔ ∃ gs bs, d.goals.mapM GoalDescription.build = .ok gs ∧
      d.binders.mapM BinderDescription.build = .ok bs ∧
      ⟨((Solver.new d.solver.normalized).attachAll gs).addBinders bs, d.execution⟩ = x := by
  rw [build_eq, Checked.bind_eq_ok]
  simp only [Checked.bind_eq_ok, Checked.pure_eq_ok, exists_and_left]

/-- A fault of a binder is reported only if no goal has one. -/
theorem build_eq_error_iff {d : ScenarioDescription α} {f : Fault α} :
    build d = .error f ↔ Checked.FirstFault GoalDescription.build d.goals f ∨
      (∀ e ∈ d.goals, ∃ g, e.build = .ok g) ∧
        Checked.FirstFault BinderDescription.build d.binders f := by
  rw [build_eq, ← Checked.mapM_eq_error_iff, ← Checked.mapM_eq_error_iff,
    ← Checked.exists_mapM_eq_ok_iff]
  cases d.goals.mapM GoalDescription.build with
  | error e => simp [bind, Except.bind]
  | ok gs =>
    cases d.binders.mapM BinderDescription.build with
    | error e => simp [bind, Except.bind]
    | ok bs => simp [bind, Except.bind, pure, Except.pure]

theorem made_bounded_of_mapM_eq_ok {ds : List (GoalDescription α)} {gs : List (Goal α)}
    (h : ds.mapM GoalDescription.build = .ok gs) : ∀ g ∈ gs, g.Made ∧ g.aim.Bounded := by
  intro g hg
  have hmem : (.ok g : Checked α (Goal α)) ∈ ds.map GoalDescription.build :=
    Checked.mapM_eq_ok_iff.mp h ▸ List.mem_map_of_mem hg
  obtain ⟨e, _, he⟩ := List.mem_map.mp hmem
  exact ⟨GoalDescription.made he, GoalDescription.bounded he⟩

omit [Scalar α] in
theorem sound_of_mapM_eq_ok {ds : List (BinderDescription α)} {bs : List (Binder α)}
    (h : ds.mapM BinderDescription.build = .ok bs) : ∀ b ∈ bs, b.Sound := by
  intro b hb
  have hmem : (.ok b : Checked α (Binder α)) ∈ ds.map BinderDescription.build :=
    Checked.mapM_eq_ok_iff.mp h ▸ List.mem_map_of_mem hb
  obtain ⟨e, _, he⟩ := List.mem_map.mp hmem
  exact (BinderDescription.built he).sound

/-- The goals and binders of a solver that was built are, but for their nodes, what the entries were
built into. -/
theorem exists_detached_eq {d : ScenarioDescription α} {x : Scenario α} (h : build d = .ok x) :
    ∃ (gs : List (Goal α)) (bs : List (Binder α)),
      d.goals.map GoalDescription.build = gs.map .ok ∧
      d.binders.map BinderDescription.build = bs.map .ok ∧
      gs.map Goal.detached = x.solver.goals.toList.map Goal.detached ∧
      bs.map Binder.detached = x.solver.binders.toList.map Binder.detached ∧
      x.solver.WellFormed := by
  obtain ⟨gs, bs, hgs, hbs, rfl⟩ := build_eq_ok_iff.mp h
  have hmade := made_bounded_of_mapM_eq_ok hgs
  have hsound := sound_of_mapM_eq_ok hbs
  rw [Checked.mapM_eq_ok_iff] at hgs hbs
  refine ⟨gs, bs, hgs, hbs, ?_, ?_, ?_⟩
  · rw [Solver.goals_addBinders, Solver.goals_attachAll]
    rfl
  · rw [Solver.binders_addBinders, Solver.binders_attachAll]
    rfl
  · exact ((Solver.wellFormed_new _).attachAll hmade).addBinders hsound

theorem exists_build_eq_ok_iff {d : ScenarioDescription α} : (∃ x, build d = .ok x) ↔
    (∀ e ∈ d.goals, ∃ g, e.build = .ok g) ∧ ∀ e ∈ d.binders, ∃ b, e.build = .ok b := by
  rw [← Checked.exists_mapM_eq_ok_iff, ← Checked.exists_mapM_eq_ok_iff]
  simp only [build_eq_ok_iff]
  constructor
  · rintro ⟨_, gs, bs, hgs, hbs, _⟩
    exact ⟨⟨gs, hgs⟩, bs, hbs⟩
  · rintro ⟨⟨gs, hgs⟩, bs, hbs⟩
    exact ⟨_, gs, bs, hgs, hbs, rfl⟩

/-- An entry and its goal have the same place. -/
theorem exists_goal_of_build {d : ScenarioDescription α} {x : Scenario α} (h : build d = .ok x)
    {k : Nat} {e : GoalDescription α} (he : d.goals[k]? = some e) :
    ∃ g places, e.build = .ok g ∧ x.solver.goals[k]? = some { g with nodes := places } ∧
      places.length = g.starts.length ∧ places ≠ [] ∧ ∀ i ∈ places, i < x.solver.nodes.size := by
  obtain ⟨gs, _, hgs, _, hgoals, _, hwf⟩ := exists_detached_eq h
  obtain ⟨g, hg, heg⟩ := exists_getElem?_of_map_eq hgs he
  obtain ⟨g', hg', hdetached⟩ := exists_getElem?_of_map_eq hgoals hg
  rw [Array.getElem?_toList] at hg'
  have hattached := hwf.goals_attached g' (Array.mem_of_getElem? hg')
  have heq := Goal.eq_of_detached_eq hdetached
  have hlen : g'.nodes.length = g.starts.length := by
    rw [hattached.nodes_length, heq]
    rfl
  refine ⟨g, g'.nodes, heg, heq ▸ hg', hlen, ?_, hattached.nodes_lt⟩
  have hne := (GoalDescription.made heg).proper.starts_ne_nil
  exact List.length_pos_iff.mp (hlen ▸ List.length_pos_iff.mpr hne)

theorem exists_binder_of_build {d : ScenarioDescription α} {x : Scenario α} (h : build d = .ok x)
    {k : Nat} {e : BinderDescription α} (he : d.binders[k]? = some e) :
    ∃ b places, e.build = .ok b ∧ x.solver.binders[k]? = some { b with nodes := places } ∧
      places.length = b.starts.length ∧ places ≠ [] ∧ ∀ i ∈ places, i < x.solver.nodes.size := by
  obtain ⟨_, bs, _, hbs, _, hbinders, hwf⟩ := exists_detached_eq h
  obtain ⟨b, hb, heb⟩ := exists_getElem?_of_map_eq hbs he
  obtain ⟨b', hb', hdetached⟩ := exists_getElem?_of_map_eq hbinders hb
  rw [Array.getElem?_toList] at hb'
  have hattached := hwf.binders_attached b' (Array.mem_of_getElem? hb')
  have heq := Binder.eq_of_detached_eq hdetached
  have hlen : b'.nodes.length = b.starts.length := by
    rw [hattached.nodes_length, heq]
  refine ⟨b, b'.nodes, heb, heq ▸ hb', hlen, ?_, hattached.nodes_lt⟩
  have hne := (BinderDescription.built heb).starts_ne_nil
  exact List.length_pos_iff.mp (hlen ▸ List.length_pos_iff.mpr hne)

/-- A scenario can be built exactly when its goals and its binders can, for a goal that can be built
can be attached to any solver. If it cannot, then the fault is that of the first entry that cannot,
goals before binders. If it can, then its solver has a goal for each goal entry and a binder for
each binder entry, in order, which are what the entry is built into, with a node for each starting
position. -/
theorem build_succeeds_iff (d : ScenarioDescription α) :
    ((∃ x, build d = .ok x) ↔
      (∀ e ∈ d.goals, ∃ g, e.build = .ok g) ∧ ∀ e ∈ d.binders, ∃ b, e.build = .ok b) ∧
    (∀ (e : GoalDescription α) (g : Goal α), e.build = .ok g →
      ∀ (s : Solver α) (threshold : α), ∃ s', s.addGoalWithThreshold g threshold = .ok s') ∧
    (∀ f, build d = .error f ↔
      Checked.FirstFault GoalDescription.build d.goals f ∨
      (∀ e ∈ d.goals, ∃ g, e.build = .ok g) ∧
        Checked.FirstFault BinderDescription.build d.binders f) ∧
    ∀ x, build d = .ok x →
      x.solver.goals.size = d.goals.length ∧ x.solver.binders.size = d.binders.length ∧
      (∀ (k : Nat) (e : GoalDescription α), d.goals[k]? = some e →
        ∃ g places, e.build = .ok g ∧ x.solver.goals[k]? = some { g with nodes := places } ∧
          places.length = g.starts.length ∧ places ≠ [] ∧
            ∀ i ∈ places, i < x.solver.nodes.size) ∧
      ∀ (k : Nat) (e : BinderDescription α), d.binders[k]? = some e →
        ∃ b places, e.build = .ok b ∧ x.solver.binders[k]? = some { b with nodes := places } ∧
          places.length = b.starts.length ∧ places ≠ [] ∧
            ∀ i ∈ places, i < x.solver.nodes.size := by
  refine ⟨exists_build_eq_ok_iff, fun e g he s threshold => ?_, fun f => build_eq_error_iff,
    fun x hx => ⟨?_, ?_, fun k e => exists_goal_of_build hx, fun k e => exists_binder_of_build hx⟩⟩
  · exact ⟨_, (GoalDescription.made he).addGoalWithThreshold_eq s threshold⟩
  · obtain ⟨gs, _, hgs, _, hgoals, _⟩ := exists_detached_eq hx
    calc x.solver.goals.size = gs.length := (length_eq_of_map_eq hgoals).symm
      _ = d.goals.length := (length_eq_of_map_eq hgs).symm
  · obtain ⟨_, bs, _, hbs, _, hbinders, _⟩ := exists_detached_eq hx
    calc x.solver.binders.size = bs.length := (length_eq_of_map_eq hbinders).symm
      _ = d.binders.length := (length_eq_of_map_eq hbs).symm

end Scenario
end Relaxation
