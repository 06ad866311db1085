import Relaxation.Proofs.Goal.Response
import Relaxation.Proofs.Lists
import Relaxation.Proofs.Solver.Attach
import Relaxation.Solver.Execute

/-!
# Well-formed solvers

In a well-formed solver every node has its tally, and the places that goals, binders and the handle
name are those of nodes in the pool (`Solver.WellFormed`). Each operation of a solver keeps it
well-formed; here is one lemma for each of them.
-/

namespace Relaxation

variable {α : Type} [Scalar α]

/-! ## Goals and binders in a pool -/

/-- A sound goal with a node of a pool of `count` nodes for every starting position. -/
structure Goal.Attached (count : Nat) (g : Goal α) : Prop extends g.Sound where
  nodes_length : g.nodes.length = g.nodeCount
  nodes_lt : ∀ i ∈ g.nodes, i < count

/-- A binder whose faces refer to its own vertices. -/
def Binder.Sound (b : Binder α) : Prop :=
  match b.kind with
  | .mesh faces => ∀ f ∈ faces, f.Within b.starts.length
  | .points | .polyline _ => True

/-- A sound binder with a node of a pool of `count` nodes for every starting position. -/
structure Binder.Attached (count : Nat) (b : Binder α) : Prop where
  sound : b.Sound
  nodes_length : b.nodes.length = b.starts.length
  nodes_lt : ∀ i ∈ b.nodes, i < count

/-- The binders that come out of a constructor. -/
inductive Binder.Built : Binder α → Prop
  | points {starts : List (Vec3 α)} {b : Binder α} : Binder.points starts = .ok b → Built b
  | polyline {starts : List (Vec3 α)} {closed : Bool} {b : Binder α} :
    Binder.polyline starts closed = .ok b → Built b
  | mesh {starts : List (Vec3 α)} {faces : List Face} {b : Binder α} :
    Binder.mesh starts faces = .ok b → Built b

omit [Scalar α] in
theorem Binder.Built.sound {b : Binder α} (h : b.Built) : b.Sound := by
  cases h with
  | points h =>
    obtain ⟨_, h⟩ := Checked.check_bind_eq_ok.mp h
    cases Checked.pure_eq_ok.mp h
    trivial
  | polyline h =>
    obtain ⟨_, h⟩ := Checked.check_bind_eq_ok.mp h
    cases Checked.pure_eq_ok.mp h
    trivial
  | mesh h =>
    obtain ⟨_, h⟩ := Checked.check_bind_eq_ok.mp h
    obtain ⟨hfaces, h⟩ := Checked.check_bind_eq_ok.mp h
    cases Checked.pure_eq_ok.mp h
    exact requireFaces_eq_ok_iff.mp hfaces

/-- Nodes are never taken away from under a goal. -/
theorem Goal.Attached.mono {m n : Nat} {g : Goal α} (h : g.Attached m) (hmn : m ≤ n) :
    g.Attached n :=
  { h with nodes_lt := fun i hi => Nat.lt_of_lt_of_le (h.nodes_lt i hi) hmn }

omit [Scalar α] in
theorem Binder.Attached.mono {m n : Nat} {b : Binder α} (h : b.Attached m) (hmn : m ≤ n) :
    b.Attached n :=
  { h with nodes_lt := fun i hi => Nat.lt_of_lt_of_le (h.nodes_lt i hi) hmn }

/-- The answer of a goal takes the place of its buffers, slot by slot. -/
theorem Goal.Attached.compute {count : Nat} {g : Goal α} (h : g.Attached count)
    (pool : Pool α) : (g.compute pool).Attached count where
  moves_length := (length_overwrite ..).trans h.moves_length
  weights_length := (length_overwrite ..).trans h.weights_length
  fits := h.fits
  usable_weight := h.usable_weight
  nodes_length := h.nodes_length
  nodes_lt := h.nodes_lt

theorem Goal.Attached.length_positions {count : Nat} {g : Goal α} (h : g.Attached count)
    (pool : Pool α) : (g.positions pool).length = g.nodeCount :=
  (List.length_map ..).trans h.nodes_length

/-- A change keeps the number of slots. -/
theorem Goal.Attached.change {count : Nat} {g g' : Goal α} {a : Amendment α}
    {weight : Option α} (h : g.Attached count) (ha : a.Bounded)
    (hchange : g.change a weight = .ok g') : g'.Attached count := by
  have hsound := h.toSound.change ha hchange
  obtain ⟨_, _, _, rfl⟩ := Goal.change_eq_ok_iff.mp hchange
  exact ⟨hsound, h.nodes_length, h.nodes_lt⟩

/-! ## The node held -/

theorem Scalar.firstMinBy_mem {β : Type} {key : β → α} {bs : List β} {b : β}
    (h : firstMinBy key bs = some b) : b ∈ bs := by
  cases bs with
  | nil => simp [firstMinBy] at h
  | cons x xs =>
    cases h
    -- Which of two items is the better one does not matter here.
    refine (foldl_pick (r := fun _ _ => True) (fun _ => trivial) (fun _ _ => trivial) ?_ x xs).1
    intro best y
    split <;> simp

namespace Interaction

/-- The nearest node is one of the pool. -/
theorem nearestNode_lt {pool : Pool α} {ray : Ray α} {i : Nat}
    (h : nearestNode pool ray = some i) : i < pool.size := by
  obtain ⟨x, hx, rfl⟩ := Option.map_eq_some_iff.mp h
  obtain ⟨⟨n, j⟩, hn, rfl⟩ := List.mem_map.mp (Scalar.firstMinBy_mem hx)
  simpa using (List.mem_zipIdx' hn).1

/-- The node held, if any, is one of `count` nodes. -/
def Holds (count : Nat) (x : Interaction α) : Prop := ∀ i ∈ x.handle, i < count

omit [Scalar α] in
theorem Holds.mono {m n : Nat} {x : Interaction α} (h : x.Holds m) (hmn : m ≤ n) : x.Holds n :=
  fun i hi => Nat.lt_of_lt_of_le (h i hi) hmn

/-- Letting go of nodes that are not there leaves one that is there, whatever was held before. -/
theorem holds_drain (pool : Pool α) (x : Interaction α) : (x.drain pool).Holds pool.size := by
  intro i hi
  simp only [drain, refresh, Option.mem_def, Option.filter_eq_some_iff, decide_eq_true_eq] at hi
  exact hi.2

/-- Only the node held is pulled, and only while the pointer is there to pull it. -/
theorem target_eq_some_iff {pool : Pool α} {x : Interaction α} {i : Nat} {p : Vec3 α} :
    x.target pool = some (i, p) ↔ x.handle = some i ∧ ∃ ray, x.pointer = some ray ∧
      ∃ node, pool[i]? = some node ∧ ray.closestPoint node.position = p := by
  simp only [target, Option.bind_eq_bind, Option.bind_eq_some_iff, Option.pure_def,
    Option.some.injEq, Prod.mk.injEq]
  constructor
  · rintro ⟨_, hi, ray, hray, node, hnode, rfl, hp⟩
    exact ⟨hi, ray, hray, node, hnode, hp⟩
  · rintro ⟨hi, ray, hray, node, hnode, hp⟩
    exact ⟨i, hi, ray, hray, node, hnode, rfl, hp⟩

end Interaction

/-! ## Solvers -/

theorem Goal.size_tally (g : Goal α) (tallies : Array (Tally α)) :
    (g.tally tallies).size = tallies.size := by
  unfold Goal.tally
  generalize g.nodes.zip (g.moves.zip g.weights) = slots
  induction slots generalizing tallies with
  | nil => rfl
  | cons slot slots ih => rw [List.foldl_cons, ih, Array.size_modify]

namespace Solver

theorem size_collect (s : Solver α) : s.collect.size = s.tallies.size := by
  have hfold : ∀ (goals : List (Goal α)) (tallies : Array (Tally α)),
      (goals.foldl (fun tallies g => g.tally tallies) tallies).size = tallies.size := by
    intro goals
    induction goals with
    | nil => exact fun _ => rfl
    | cons g goals ih => exact fun tallies => (ih _).trans (g.size_tally tallies)
  rw [collect, ← Array.foldl_toList, hfold, Array.size_map]

theorem size_pull (s : Solver α) (tallies : Array (Tally α)) :
    (s.pull tallies).size = tallies.size := by
  unfold pull
  split
  · split
    · exact Array.size_modify
    · rfl
  · rfl

/-- A change is accepted when there is a goal of its kind that accepts it, and replaces that goal. -/
theorem changeGoal_eq_ok_iff {s s' : Solver α} {place : Nat} {a : Amendment α}
    {weight : Option α} :
    s.changeGoal place a weight = some (.ok s') ↔
      ∃ g g', s.goals[place]? = some g ∧ g.kind = a.kind ∧ g.change a weight = .ok g' ∧
        { s with goals := s.goals.setIfInBounds place g' } = s' := by
  unfold changeGoal
  cases s.goals[place]? with
  | none => simp
  | some g =>
    by_cases hkind : g.kind = a.kind
    · cases hchange : g.change a weight with
      | error f => simp [hkind, hchange, Except.map]
      | ok g' => simp [hkind, hchange, Except.map]
    · simp [hkind]

/-- Every place that is named in the solver is that of a node, and every node has its tally. -/
structure WellFormed (s : Solver α) : Prop where
  tallies_size : s.tallies.size = s.nodes.size
  goals_attached : ∀ g ∈ s.goals, g.Attached s.nodes.size
  binders_attached : ∀ b ∈ s.binders, b.Attached s.nodes.size
  holds : s.interaction.Holds s.nodes.size

theorem wellFormed_new (params : Params α) : (new params).WellFormed where
  tallies_size := rfl
  goals_attached := by simp [new]
  binders_attached := by simp [new]
  holds := by simp [new, Interaction.empty, Interaction.Holds]

namespace WellFormed

variable {s : Solver α}

theorem addNodes (h : s.WellFormed) (ps : List (Vec3 α)) : (s.addNodes ps).WellFormed := by
  have hle : s.nodes.size ≤ (s.addNodes ps).nodes.size := by simp
  refine ⟨?_, ?_, ?_, h.holds.mono hle⟩
  · rw [size_tallies_addNodes, size_nodes_addNodes, h.tallies_size]
  · exact fun g hg => (h.goals_attached g hg).mono hle
  · exact fun b hb => (h.binders_attached b hb).mono hle

/-- Nodes that are added come with their tallies. -/
theorem placeAll (h : s.WellFormed) (threshold : α) (ps : List (Vec3 α)) :
    (s.placeAll threshold ps).1.WellFormed := by
  obtain ⟨added, _, heq⟩ := exists_placeAll_eq threshold s ps
  exact heq ▸ h.addNodes added

theorem addGoalWithThreshold {g : Goal α} {threshold : α} {s' : Solver α} (h : s.WellFormed)
    (hg : g.Sound) (hadd : s.addGoalWithThreshold g threshold = .ok s') : s'.WellFormed := by
  obtain ⟨_, _, rfl⟩ := addGoalWithThreshold_eq_ok_iff.mp hadd
  have hplaced := h.placeAll threshold g.starts
  refine { hplaced with goals_attached := fun g' hg' => ?_ }
  rcases Array.mem_push.mp hg' with hg' | rfl
  · exact hplaced.goals_attached g' hg'
  · exact ⟨⟨hg.moves_length, hg.weights_length, hg.fits, hg.usable_weight⟩,
      length_placeAll threshold s g.starts, fun i hi => lt_size_of_mem_placeAll hi⟩

theorem addGoals {gs : List (Goal α)} (h : s.WellFormed) (hgs : ∀ g ∈ gs, g.Sound) :
    (s.addGoals gs).1.WellFormed := by
  induction gs generalizing s with
  | nil => exact h
  | cons g gs ih =>
    rw [Solver.addGoals]
    split
    case h_1 s' hadd =>
      exact ih (h.addGoalWithThreshold (hgs g List.mem_cons_self) hadd)
        fun g' hg' => hgs g' (List.mem_cons_of_mem g hg')
    case h_2 => exact h

theorem addBinderWithThreshold {b : Binder α} (h : s.WellFormed) (hb : b.Sound)
    (threshold : α) : (s.addBinderWithThreshold b threshold).WellFormed := by
  have hplaced := h.placeAll threshold b.starts
  refine { hplaced with binders_attached := fun b' hb' => ?_ }
  rcases Array.mem_push.mp hb' with hb' | rfl
  · exact hplaced.binders_attached b' hb'
  · exact ⟨hb, length_placeAll threshold s b.starts, fun i hi => lt_size_of_mem_placeAll hi⟩

theorem addBinders {bs : List (Binder α)} (h : s.WellFormed) (hbs : ∀ b ∈ bs, b.Sound) :
    (s.addBinders bs).WellFormed := by
  induction bs generalizing s with
  | nil => exact h
  | cons b bs ih =>
    exact ih (h.addBinderWithThreshold (hbs b List.mem_cons_self) _)
      fun b' hb' => hbs b' (List.mem_cons_of_mem b hb')

theorem changeGoal {place : Nat} {a : Amendment α} {weight : Option α} {s' : Solver α}
    (h : s.WellFormed) (ha : a.Bounded) (hchange : s.changeGoal place a weight = some (.ok s')) :
    s'.WellFormed := by
  obtain ⟨g, g', hg, _, hg', rfl⟩ := changeGoal_eq_ok_iff.mp hchange
  refine { h with goals_attached := fun x hx => ?_ }
  rcases Array.mem_or_eq_of_mem_setIfInBounds hx with hx | rfl
  · exact h.goals_attached x hx
  · exact (h.goals_attached g (Array.mem_of_getElem? hg)).change ha hg'

/-! ### One iteration -/

theorem drain (h : s.WellFormed) : s.drain.WellFormed :=
  { h with holds := Interaction.holds_drain s.nodes s.interaction }

theorem drift (h : s.WellFormed) : s.drift.WellFormed := by
  unfold Solver.drift
  split
  · have hsize : (s.nodes.map Node.drift).size = s.nodes.size := Array.size_map ..
    exact ⟨hsize ▸ h.tallies_size, hsize ▸ h.goals_attached, hsize ▸ h.binders_attached,
      hsize ▸ h.holds⟩
  · exact h

theorem compute (h : s.WellFormed) : s.compute.WellFormed := by
  refine { h with goals_attached := fun g hg => ?_ }
  obtain ⟨g₀, hg₀, rfl⟩ := Array.mem_map.mp hg
  exact (h.goals_attached g₀ hg₀).compute s.nodes

/-- Moving is node by node. -/
theorem moveNodes (h : s.WellFormed) {tallies : Array (Tally α)}
    (hsize : tallies.size = s.nodes.size) : (s.moveNodes tallies).WellFormed := by
  have hnodes : (s.moveNodes tallies).nodes.size = s.nodes.size := Array.size_mapIdx
  exact ⟨hsize.trans hnodes.symm, hnodes ▸ h.goals_attached, hnodes ▸ h.binders_attached,
    hnodes ▸ h.holds⟩

theorem iterate (h : s.WellFormed) : s.iterate.WellFormed := by
  have hcomputed := h.drain.drift.compute
  have hsize : (s.drain.drift.compute.pull s.drain.drift.compute.collect).size =
      s.drain.drift.compute.nodes.size := by
    rw [size_pull, size_collect, hcomputed.tallies_size]
  have hmoved := hcomputed.moveNodes hsize
  exact ⟨hmoved.tallies_size, hmoved.goals_attached, hmoved.binders_attached, hmoved.holds⟩

/-! ### Runs and the rest -/

theorem iterateN (h : s.WellFormed) (n : Nat) : (s.iterateN n).WellFormed := by
  induction n with
  | zero => exact h
  | succ n ih => exact ih.iterate

/-- By induction on the rounds that are left. -/
theorem executeFrom (threshold : α) (fuel : Nat) {done : Nat} (h : s.WellFormed) :
    (s.executeFrom threshold done fuel).1.WellFormed := by
  induction fuel generalizing s done with
  | zero => exact h
  | succ fuel ih =>
    rw [Solver.executeFrom]
    split
    · exact h.iterate
    · exact ih h.iterate

theorem execute (h : s.WellFormed) (bounds : ExecutionBounds α) :
    (s.execute bounds).1.WellFormed :=
  h.executeFrom _ _

theorem reset (h : s.WellFormed) : s.reset.WellFormed := by
  have hsize : s.reset.nodes.size = s.nodes.size := Array.size_map ..
  exact ⟨hsize ▸ h.tallies_size, hsize ▸ h.goals_attached, hsize ▸ h.binders_attached,
    hsize ▸ h.holds⟩

theorem send (h : s.WellFormed) (command : Command α) : (s.send command).WellFormed :=
  ⟨h.tallies_size, h.goals_attached, h.binders_attached, h.holds⟩

end WellFormed
end Solver
end Relaxation
