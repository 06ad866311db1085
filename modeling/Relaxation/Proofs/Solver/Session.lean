import Relaxation.Proofs.Interaction
import Relaxation.Proofs.Solver.Identity

/-!
# A solver among senders

Commands come in while the solver is at work. Iterating and clearing take them off the queue one by one
until they find it empty, and senders may add to it between any two steps (`Session.Step`). Iterating
and clearing still come to what they do all at once, at the moment at which the queue is found empty
(`Session.Run.stands`): what was sent before that moment is taken by then, and what is sent after it
is left for the next time (`Session.Run.sent_eq`).
-/

namespace Relaxation

variable {α : Type} [Scalar α]

/-! ## Operations that leave the queue alone -/

/-- The operation neither takes commands nor sends one. Several iterations in a row take commands once
for each of them. -/
def Operation.Quiet : Operation α → Prop
  | addGoal _ | addGoalWithThreshold .. | addGoals _ | addBinder _ | addBinderWithThreshold ..
  | addBinders _ | reset | changeGoal .. | configure _ => True
  | iterate | iterateN _ | execute _ | clear | send _ => False

/-- The same state of the pointer, with other commands in the queue. -/
def Interaction.withQueue (queue : List (Command α)) (i : Interaction α) : Interaction α :=
  { i with queue }

omit [Scalar α] in
@[simp] theorem Interaction.withQueue_withQueue (q q' : List (Command α)) (i : Interaction α) :
    (i.withQueue q).withQueue q' = i.withQueue q' := rfl

/-- A command does not look at the queue that it came from. -/
theorem Interaction.withQueue_obey (pool : Pool α) (i : Interaction α) (c : Command α)
    (queue : List (Command α)) :
    (i.obey pool c).withQueue queue = (i.withQueue queue).obey pool c := by
  cases c <;> rfl

theorem Interaction.withQueue_foldl_obey (pool : Pool α) (i : Interaction α)
    (cs queue : List (Command α)) :
    (cs.foldl (obey pool) i).withQueue queue = cs.foldl (obey pool) (i.withQueue queue) := by
  induction cs generalizing i with
  | nil => rfl
  | cons c cs ih => rw [List.foldl_cons, ih, List.foldl_cons, withQueue_obey]

theorem Interaction.send_foldl_obey (pool : Pool α) (i : Interaction α) (cs : List (Command α))
    (c : Command α) : (cs.foldl (obey pool) i).send c = cs.foldl (obey pool) (i.send c) := by
  calc (cs.foldl (obey pool) i).send c
    _ = (cs.foldl (obey pool) i).withQueue (i.queue ++ [c]) := by
      rw [send, queue_foldl_obey, withQueue]
    _ = cs.foldl (obey pool) (i.send c) := withQueue_foldl_obey ..

namespace Solver

theorem interaction_addGoal {s s' : Solver α} {g : Goal α} {threshold : α}
    (h : s.addGoalWithThreshold g threshold = .ok s') : s'.interaction = s.interaction := by
  obtain ⟨_, _, rfl⟩ := addGoalWithThreshold_eq_ok_iff.mp h
  exact interaction_placeAll ..

theorem interaction_addGoals (s : Solver α) (gs : List (Goal α)) :
    (s.addGoals gs).1.interaction = s.interaction := by
  induction gs generalizing s with
  | nil => rfl
  | cons g gs ih =>
    unfold addGoals
    cases h : s.addGoal g with
    | error f => rfl
    | ok s' => exact (ih s').trans (interaction_addGoal h)

/-- Attaching, changing and resetting do not touch the pointer. -/
theorem interaction_quiet (s : Solver α) {op : Operation α} (h : op.Quiet) :
    (op.apply s).interaction = s.interaction := by
  cases op with
  | addGoal g =>
    simp only [Operation.apply]
    cases hadd : s.addGoal g with
    | error f => rfl
    | ok s' => exact interaction_addGoal hadd
  | addGoalWithThreshold g threshold =>
    simp only [Operation.apply]
    cases hadd : s.addGoalWithThreshold g threshold with
    | error f => rfl
    | ok s' => exact interaction_addGoal hadd
  | addGoals gs => exact interaction_addGoals s gs
  | addBinder b => exact interaction_placeAll ..
  | addBinderWithThreshold b threshold => exact interaction_placeAll ..
  | addBinders bs => exact interaction_addBinders s bs
  | changeGoal place a weight =>
    simp only [Operation.apply]
    rcases hchange : s.changeGoal place a weight with _ | (f | s')
    · rfl
    · rfl
    · obtain ⟨g, g', _, _, _, rfl⟩ := changeGoal_eq_ok_iff.mp hchange
      rfl
  | reset => rfl
  | configure params => rfl
  | iterate | iterateN _ | execute _ | clear | send _ => cases h

/-! ## The parts of iterating and clearing -/

/-- The last part of an iteration: the nodes move by what the goals and the pointer ask for. -/
def finish (s : Solver α) : Solver α :=
  { s.moveNodes (s.pull s.collect) with iteration := s.iteration + 1 }

/-- The first part of clearing, which leaves the commands, the pointer and the node held. -/
def emptied (s : Solver α) : Solver α := { new s.params with interaction := s.interaction }

/-- The last part of clearing: the pointer and the node held are forgotten. -/
def forget (s : Solver α) : Solver α :=
  { s with interaction := Interaction.empty.withQueue s.interaction.queue }

theorem send_drift (s : Solver α) (c : Command α) : (s.send c).drift = s.drift.send c := by
  unfold drift
  change (if s.params.momentum then _ else _) = _
  split <;> rfl

end Solver

/-! ## Steps -/

/-- How far the owner of a solver has come with iterating or clearing it. -/
inductive Session.Phase where
  | idle
  /-- An iteration takes the commands off the queue, and obeys them. -/
  | draining
  /-- It found the queue empty. -/
  | drained
  /-- The goals have responded, and the pull of the pointer is next. -/
  | responded
  /-- Clearing takes the commands off the queue, and drops them. -/
  | discarding
  /-- It found the queue empty. -/
  | discarded

/-- A solver with what its owner is doing to it. -/
structure Session (α : Type) where
  solver : Solver α
  phase : Session.Phase

namespace Session

/-- What can happen between two states of a session: a sender adds a command, the solver performs an
operation as a whole, or it goes a step further in an iteration or in clearing. -/
inductive Event (α : Type) where
  | send (sender : Nat) (c : Command α)
  | perform (op : Operation α)
  | beginIterate
  | beginClear
  | take (c : Command α)
  | endDrain
  | respond
  | finish
  | endDiscard
  | forget

namespace Event

/-- The command that an event adds to the queue. -/
def sent? : Event α → Option (Command α)
  | send _ c => some c
  | _ => none

/-- The command that an event takes off the queue. -/
def taken? : Event α → Option (Command α)
  | take c => some c
  | _ => none

/-- Whether the queue is found empty, which ends a round of taking commands. -/
def endings : Event α → Nat
  | endDrain | endDiscard => 1
  | _ => 0

/-- What the event does all at once, if it is one at which something seems to happen. -/
def atom? : Event α → Option (Operation α)
  | send _ c => some (.send c)
  | perform op => some op
  | endDrain => some .iterate
  | endDiscard => some .clear
  | _ => none

end Event

/-- One step of the owner, or of any of the senders. -/
inductive Step : Session α → Event α → Session α → Prop
  | send (x : Session α) (sender : Nat) (c : Command α) :
    Step x (.send sender c) { x with solver := x.solver.send c }
  | perform (s : Solver α) {op : Operation α} :
    op.Quiet → Step ⟨s, .idle⟩ (.perform op) ⟨op.apply s, .idle⟩
  | beginIterate (s : Solver α) : Step ⟨s, .idle⟩ .beginIterate ⟨s, .draining⟩
  | obey {s : Solver α} {c : Command α} {cs : List (Command α)} :
    s.interaction.queue = c :: cs →
    Step ⟨s, .draining⟩ (.take c)
      ⟨{ s with interaction := (s.interaction.obey s.nodes c).withQueue cs }, .draining⟩
  | endDrain {s : Solver α} : s.interaction.queue = [] →
    Step ⟨s, .draining⟩ .endDrain
      ⟨{ s with interaction := s.interaction.refresh s.nodes }, .drained⟩
  | respond (s : Solver α) : Step ⟨s, .drained⟩ .respond ⟨s.drift.compute, .responded⟩
  | finish (s : Solver α) : Step ⟨s, .responded⟩ .finish ⟨s.finish, .idle⟩
  | beginClear (s : Solver α) : Step ⟨s, .idle⟩ .beginClear ⟨s.emptied, .discarding⟩
  | drop {s : Solver α} {c : Command α} {cs : List (Command α)} :
    s.interaction.queue = c :: cs →
    Step ⟨s, .discarding⟩ (.take c)
      ⟨{ s with interaction := s.interaction.withQueue cs }, .discarding⟩
  | endDiscard {s : Solver α} : s.interaction.queue = [] →
    Step ⟨s, .discarding⟩ .endDiscard ⟨s, .discarded⟩
  | forget (s : Solver α) : Step ⟨s, .discarded⟩ .forget ⟨s.forget, .idle⟩

/-- Steps of all parties, in whatever order they come. -/
inductive Run : Session α → List (Event α) → Session α → Prop
  | nil (x : Session α) : Run x [] x
  | cons {x y z : Session α} {e : Event α} {es : List (Event α)} :
    Step x e y → Run y es z → Run x (e :: es) z

/-! ## Rounds -/

/-- Commands of events, each with the number of rounds that had ended before it. -/
def tagged (pick : Event α → Option (Command α)) : Nat → List (Event α) → List (Nat × Command α)
  | _, [] => []
  | n, e :: es => (pick e).toList.map (n, ·) ++ tagged pick (n + e.endings) es

/-- How many rounds of taking commands end with the events. -/
def endings (es : List (Event α)) : Nat := (es.map Event.endings).sum

omit [Scalar α] in
theorem endings_cons (e : Event α) (es : List (Event α)) :
    endings (e :: es) = e.endings + endings es := rfl

variable {x y z : Session α} {e : Event α} {es : List (Event α)}

/-- A command that is sent goes to the end of the queue, and one that is taken leaves its front. -/
theorem Step.queue_eq (h : Step x e y) :
    x.solver.interaction.queue ++ e.sent?.toList =
      e.taken?.toList ++ y.solver.interaction.queue := by
  cases h with
  | send => rfl
  | obey h | drop h => exact (List.append_nil _).trans h
  | perform s h => exact (List.append_nil _).trans (congrArg _ (s.interaction_quiet h)).symm
  | respond s => exact (List.append_nil _).trans (congrArg _ s.interaction_drift).symm
  | _ => exact List.append_nil _

/-- A round ends only when the queue is found empty. -/
theorem Step.queue_eq_nil (h : Step x e y) (he : e.endings ≠ 0) :
    y.solver.interaction.queue = [] := by
  cases h with
  | endDrain h | endDiscard h => exact h
  | _ => exact absurd rfl he

/-- Every command sent is taken once, in the order of sending, in the round in which it was sent, or it
is still in the queue in that round. -/
theorem Run.sent_eq (h : Run x es y) (n : Nat) :
    x.solver.interaction.queue.map (n, ·) ++ tagged Event.sent? n es =
      tagged Event.taken? n es ++ y.solver.interaction.queue.map (n + endings es, ·) := by
  induction h generalizing n with
  | nil x => simp [tagged, endings]
  | @cons x y z e es hstep hrun ih =>
    have hround : y.solver.interaction.queue.map (n, ·) =
        y.solver.interaction.queue.map (n + e.endings, ·) := by
      by_cases he : e.endings = 0
      · rw [he, Nat.add_zero]
      · rw [hstep.queue_eq_nil he]
        rfl
    have hsum : n + endings (e :: es) = n + e.endings + endings es := by
      rw [endings_cons, Nat.add_assoc]
    calc
      x.solver.interaction.queue.map (n, ·) ++ tagged Event.sent? n (e :: es)
      _ = (x.solver.interaction.queue ++ e.sent?.toList).map (n, ·) ++
            tagged Event.sent? (n + e.endings) es := by
        rw [tagged, List.map_append, List.append_assoc]
      _ = e.taken?.toList.map (n, ·) ++ (y.solver.interaction.queue.map (n + e.endings, ·) ++
            tagged Event.sent? (n + e.endings) es) := by
        rw [hstep.queue_eq, List.map_append, hround, List.append_assoc]
      _ = tagged Event.taken? n (e :: es) ++ z.solver.interaction.queue.map
            (n + endings (e :: es), ·) := by
        rw [ih, tagged, hsum, List.append_assoc]

/-! ## All at once -/

/-- How a solver at work stands to what it would be if every iteration and every clearing had happened
all at once: before the queue is found empty it has taken some of the commands that the other one still
has to take, and afterwards some of its work is yet to be done. -/
inductive Stands : Session α → Solver α → Prop
  | idle (s : Solver α) : Stands ⟨s, .idle⟩ s
  | draining (t : Solver α) (taken rest : List (Command α)) : t.interaction.queue = taken ++ rest →
    Stands ⟨{ t with
      interaction := taken.foldl (Interaction.obey t.nodes) (t.interaction.withQueue rest) },
      .draining⟩ t
  | drained (s : Solver α) : Stands ⟨s, .drained⟩ s.drift.compute.finish
  | responded (s : Solver α) : Stands ⟨s, .responded⟩ s.finish
  | discarding (t : Solver α) (dropped rest : List (Command α)) :
    t.interaction.queue = dropped ++ rest →
    Stands ⟨{ t.emptied with interaction := t.interaction.withQueue rest }, .discarding⟩ t
  | discarded (s : Solver α) : Stands ⟨s, .discarded⟩ s.forget

theorem Step.stands {t : Solver α} (h : Step x e y) (ht : Stands x t) :
    Stands y ((e.atom?.map (Operation.apply t)).getD t) := by
  cases h with
  | send _ sender c =>
    change Stands _ (t.send c)
    cases ht with
    | idle => exact .idle _
    | draining _ taken rest hqueue =>
      have hsend : t.interaction.queue ++ [c] = taken ++ (rest ++ [c]) := by
        rw [hqueue, List.append_assoc]
      rw [Solver.send, Interaction.send_foldl_obey]
      exact .draining (t.send c) taken (rest ++ [c]) hsend
    | drained s =>
      have hstands := Stands.drained (s.send c)
      rw [s.send_drift] at hstands
      exact hstands
    | responded s => exact .responded (s.send c)
    | discarding _ dropped rest hqueue =>
      have hsend : t.interaction.queue ++ [c] = dropped ++ (rest ++ [c]) := by
        rw [hqueue, List.append_assoc]
      exact .discarding (t.send c) dropped (rest ++ [c]) hsend
    | discarded s => exact .discarded (s.send c)
  | perform s h => cases ht; exact .idle _
  | beginIterate s => cases ht; exact .draining _ [] _ rfl
  | @obey _ c cs h =>
    cases ht with
    | draining _ taken rest hqueue =>
      rw [Interaction.queue_foldl_obey] at h
      subst h
      have htaken : t.interaction.queue = (taken ++ [c]) ++ cs := by
        rw [hqueue, List.append_assoc]
        rfl
      have hstands := Stands.draining t (taken ++ [c]) cs htaken
      rw [List.foldl_append, ← Interaction.withQueue_withQueue (c :: cs),
        ← Interaction.withQueue_foldl_obey, List.foldl_cons, ← Interaction.withQueue_obey] at hstands
      exact hstands
  | endDrain h =>
    cases ht with
    | draining _ taken rest hqueue =>
      rw [Interaction.queue_foldl_obey] at h
      subst h
      rw [List.append_nil] at hqueue
      subst hqueue
      exact .drained t.drain
  | respond s => cases ht; exact .responded _
  | finish s => cases ht; exact .idle _
  | beginClear s => cases ht; exact .discarding _ [] _ rfl
  | @drop _ c cs h =>
    cases ht with
    | discarding _ dropped rest hqueue =>
      subst h
      exact .discarding t (dropped ++ [c]) cs (by rw [hqueue, List.append_assoc]; rfl)
  | endDiscard h =>
    cases ht with
    | discarding _ dropped rest hqueue =>
      subst h
      exact .discarded { t.emptied with interaction := t.interaction.withQueue [] }
  | forget s => cases ht; exact .idle _

/-- By induction on the run, with `Step.stands` for each event. -/
theorem Run.stands {t : Solver α} (h : Run x es y) (ht : Stands x t) :
    Stands y (t.run (es.filterMap Event.atom?)) := by
  induction h generalizing t with
  | nil x => exact ht
  | @cons x y z e es hstep hrun ih =>
    have hrest := ih (hstep.stands ht)
    rw [List.filterMap_cons]
    cases hatom : e.atom? with
    | none => rwa [hatom] at hrest
    | some op => rwa [hatom] at hrest

/-- The commands of one round. -/
def sentIn (round : Nat) (commands : List (Nat × Command α)) : List (Command α) :=
  (commands.filter (·.1 == round)).map Prod.snd

omit [Scalar α] in
theorem sentIn_append (round : Nat) (cs ds : List (Nat × Command α)) :
    sentIn round (cs ++ ds) = sentIn round cs ++ sentIn round ds := by
  rw [sentIn, List.filter_append, List.map_append]
  rfl

omit [Scalar α] in
theorem sentIn_map_self (round : Nat) (cs : List (Command α)) :
    sentIn round (cs.map (round, ·)) = cs := by
  simp [sentIn, List.filter_map, Function.comp_def]

omit [Scalar α] in
theorem sentIn_map_of_ne {round n : Nat} (h : n ≠ round) (cs : List (Command α)) :
    sentIn round (cs.map (n, ·)) = [] := by
  simp [sentIn, List.filter_map, Function.comp_def, h]

/-- The solver that runs whole operations has its queue emptied by the end of a round. -/
theorem Step.queue_atom (h : Step x e y) (t : Solver α) :
    ((e.atom?.map (Operation.apply t)).getD t).interaction.queue =
      if e.endings = 0 then t.interaction.queue ++ e.sent?.toList else [] := by
  cases h with
  | perform s h => exact (congrArg _ (t.interaction_quiet h)).trans (List.append_nil _).symm
  | endDrain =>
    change t.drain.drift.interaction.queue = []
    rw [Solver.interaction_drift, Solver.queue_drain]
  | endDiscard => rfl
  | send => rfl
  | _ => exact (List.append_nil _).symm

/-- With everything happening all at once, the queue holds the commands sent in the round that is not
over. -/
theorem Run.queue_run (h : Run x es y) (t : Solver α) (n : Nat) :
    (t.run (es.filterMap Event.atom?)).interaction.queue =
      sentIn (n + endings es) (t.interaction.queue.map (n, ·) ++ tagged Event.sent? n es) := by
  induction h generalizing t n with
  | nil x => simp [tagged, endings, sentIn_map_self, Solver.run]
  | @cons x y z e es hstep hrun ih =>
    let t' := (e.atom?.map (Operation.apply t)).getD t
    have hqueue : t'.interaction.queue = if e.endings = 0 then _ else _ := hstep.queue_atom t
    have hrun : t.run ((e :: es).filterMap Event.atom?) = t'.run (es.filterMap Event.atom?) := by
      rw [List.filterMap_cons]
      simp only [t']
      cases e.atom? <;> rfl
    rw [hrun, ih t' (n + e.endings), endings_cons, ← Nat.add_assoc, tagged, sentIn_append,
      sentIn_append, sentIn_append, ← List.append_assoc]
    congr 1
    by_cases he : e.endings = 0
    · rw [hqueue, if_pos he, he, Nat.add_zero, List.map_append, sentIn_append]
    · have hround : n ≠ n + e.endings + endings es := by omega
      rw [hqueue, if_neg he, sentIn_map_of_ne hround, sentIn_map_of_ne hround]
      rfl

/-! ## What becomes of the commands -/

theorem Step.holds (h : Step x e y)
    (hx : x.phase = .drained ∨ x.phase = .responded →
      x.solver.interaction.Holds x.solver.nodes.size) :
    y.phase = .drained ∨ y.phase = .responded →
      y.solver.interaction.Holds y.solver.nodes.size := by
  cases h with
  | send x sender c => exact hx
  | @endDrain s _ =>
    intro _ i hi
    exact of_decide_eq_true (Option.filter_eq_some_iff.mp hi).2
  | respond s =>
    intro _
    have hsize : s.drift.compute.nodes.size = s.nodes.size := by
      change s.drift.nodes.size = _
      rw [Solver.nodes_drift]
      split
      · exact Array.size_map ..
      · rfl
    rw [hsize]
    change s.drift.interaction.Holds _
    rw [Solver.interaction_drift]
    exact hx (.inl rfl)
  | _ => rintro (h | h) <;> cases h

/-- A handle that has been drained is that of a node. -/
theorem Run.holds (h : Run x es y)
    (hx : x.phase = .drained ∨ x.phase = .responded →
      x.solver.interaction.Holds x.solver.nodes.size) :
    y.phase = .drained ∨ y.phase = .responded →
      y.solver.interaction.Holds y.solver.nodes.size := by
  induction h with
  | nil x => exact hx
  | cons hstep _ ih => exact ih (hstep.holds hx)

/-- What becomes of the commands, in the course of events that start with an idle solver `s`. -/
structure Orderly (s : Solver α) (es : List (Event α)) (x : Session α) : Prop where
  /-- Each command is taken once, in order, in the round in which it was sent, if it is not still
  waiting for that round to go on. -/
  sent_eq : s.interaction.queue.map (0, ·) ++ tagged Event.sent? 0 es =
    tagged Event.taken? 0 es ++ x.solver.interaction.queue.map (endings es, ·)
  /-- An iteration obeys, and a clearing drops, what was sent before the end of its round, as though
  it did all of its work just then. -/
  solver_eq : x.phase = .idle → x.solver = s.run (es.filterMap Event.atom?)
  /-- An iteration leaves what the commands of its round come to. -/
  settled : ∀ y, Step x .endDrain y → ∃ before : Interaction α,
    before = (s.run (es.filterMap Event.atom?)).interaction ∧
    before.queue = sentIn (endings es)
      (s.interaction.queue.map (0, ·) ++ tagged Event.sent? 0 es) ∧
    before.Settled y.solver.nodes y.solver.interaction
  /-- A clearing leaves nothing of the commands of its round. -/
  dropped : ∀ y, Step x .endDiscard y → y.solver.forget = Solver.new y.solver.params
  /-- The node held is there when the pull is added. -/
  holds : x.phase = .responded → x.solver.interaction.Holds x.solver.nodes.size

theorem Run.orderly [Scalar.Ordered α] {s : Solver α} (h : Run ⟨s, .idle⟩ es x) :
    Orderly s es x where
  sent_eq := by simpa using h.sent_eq 0
  solver_eq := by
    intro hidle
    have hstands := h.stands (.idle s)
    obtain ⟨solver, phase⟩ := x
    cases hidle
    cases hstands
    rfl
  settled := by
    intro y hy
    have hqueue := h.queue_run s 0
    rw [Nat.zero_add] at hqueue
    have hstands := h.stands (.idle s)
    refine ⟨_, rfl, hqueue, ?_⟩
    generalize s.run (es.filterMap Event.atom?) = t at hstands
    cases hy with
    | endDrain hempty =>
      cases hstands with
      | draining _ taken rest htaken =>
        rw [Interaction.queue_foldl_obey] at hempty
        cases (hempty : rest = [])
        rw [List.append_nil] at htaken
        subst htaken
        exact Interaction.settled_drain t.nodes t.interaction
  dropped := by
    intro y hy
    have hstands := h.stands (.idle s)
    generalize s.run (es.filterMap Event.atom?) = t at hstands
    cases hy with
    | endDiscard hempty =>
      cases hstands with
      | discarding _ dropped rest _ =>
        cases (hempty : rest = [])
        rfl
  holds := fun hx => h.holds (fun hidle => by simp at hidle) (.inr hx)

/-- A queue of commands comes to what the last of them say, and commands sent to a solver at work are
taken one by one, each in the round in which it was sent. -/
theorem commands_orderly [Scalar.Ordered α] :
    (∀ (pool : Pool α) (i : Interaction α), i.Settled pool (i.drain pool)) ∧
    ∀ {s : Solver α} {es : List (Event α)} {x : Session α}, Run ⟨s, .idle⟩ es x → Orderly s es x :=
  ⟨Interaction.settled_drain, fun h => h.orderly⟩

/-- Two senders, of which one sends while an iteration takes commands and both send while the solver is
cleared. The last command comes too late to be dropped. -/
theorem commands_orderly_two_senders :
    let s : Solver Binary64 := { Solver.new Params.default with
      nodes := #[Node.atRest 0, Node.atRest Vec3.xAxis]
      tallies := #[Tally.zero, Tally.zero] }
    let es : List (Event Binary64) :=
      [.send 0 (.setHandle (some 0)), .perform .reset, .beginIterate, .take (.setHandle (some 0)),
        .send 1 (.setHandle (some 1)), .take (.setHandle (some 1)), .endDrain, .send 0 .grab,
        .respond, .finish, .beginClear, .send 1 .release, .take .grab, .take .release, .endDiscard,
        .send 0 .grab, .forget]
    ∃ x, Run ⟨s, .idle⟩ es x ∧ x.solver.interaction.queue = [.grab] ∧ Orderly s es x := by
  intro s es
  have hrun : ∃ x, Run ⟨s, .idle⟩ es x ∧ x.solver.interaction.queue = [.grab] := by
    refine ⟨_, .cons (.send ..) <| .cons (.perform _ trivial) <| .cons (.beginIterate _) <|
      .cons (.obey rfl) <| .cons (.send ..) <| .cons (.obey rfl) <| .cons (.endDrain rfl) <|
      .cons (.send ..) <| .cons (.respond _) <| .cons (.finish _) <| .cons (.beginClear _) <|
      .cons (.send ..) <| .cons (.drop rfl) <| .cons (.drop rfl) <| .cons (.endDiscard rfl) <|
      .cons (.send ..) <| .cons (.forget _) <| .nil _, rfl⟩
  obtain ⟨x, hx, hqueue⟩ := hrun
  exact ⟨x, hx, hqueue, commands_orderly.2 hx⟩

end Session
end Relaxation
