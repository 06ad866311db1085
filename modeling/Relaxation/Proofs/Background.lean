import Relaxation.Background.Course
import Relaxation.Proofs.Solver.Request
import Relaxation.Scalar.Binary64

/-!
# Stopping a background run

However the steps of the worker, its owner and others interleave, a call to stop that succeeds finds a
worker that has ended, and one that times out leaves the owner with the worker it had
(`Background.stops_in_order`). As long as the render hook does not break down, the worker iterates a
whole number of ticks, and each render shows the positions after the ticks so far.
-/

namespace Relaxation

/-- The worker is out of its loop. -/
def WorkerPhase.Left {α : Type} : WorkerPhase α → Prop
  | leaving | failing | ending | gone => True
  | checking | starting | iterating .. | rendering _ | counting => False

namespace Background

/-- What the worker does in its loop. -/
def Event.InLoop : Event → Prop
  | check | lock | iterate | unlock | render | breakDown | count => True
  | signal | hangUp | exit | requestStop | beginStop _ | notice | timeOut | join | drop | readLock
  | readUnlock => False

variable {α : Type} [Scalar α]

/-! ## Steps -/

/-- One step of any party. -/
inductive Step (b : Background α) : Event → Background α → Prop
  | check : b.worker = .checking →
    Step b .check { b with worker := if b.stopping then .leaving else .starting }
  | lock : b.worker = .starting → b.lock = none →
    Step b .lock { b with
      lock := some .worker
      worker := .iterating b.solver.params.iterationCount 0 }
  | iterate {quota done : Nat} : b.worker = .iterating quota done → mayIterate quota done = true →
    Step b .iterate { b with solver := b.solver.iterate, worker := .iterating quota (done + 1) }
  | unlock {quota done : Nat} : b.worker = .iterating quota done → mayUnlock quota done = true →
    Step b .unlock { b with
      lock := none
      worker := if b.hooked then .rendering b.solver.positions else .counting }
  | render {snapshot : List (Vec3 α)} : b.worker = .rendering snapshot →
    Step b .render { b with renders := b.renders ++ [snapshot], worker := .counting }
  | breakDown {snapshot : List (Vec3 α)} : b.worker = .rendering snapshot →
    Step b .breakDown { b with worker := .failing }
  | count : b.worker = .counting → Step b .count { b with ticks := b.ticks + 1, worker := .checking }
  | signal : b.worker = .leaving → Step b .signal { b with worker := .ending, signal := .sent }
  | hangUp : b.worker = .failing → Step b .hangUp { b with worker := .ending, signal := .lost }
  | exit : b.worker = .ending → Step b .exit { b with worker := .gone }
  | requestStop : b.owner = .holding ∨ b.owner = .joined →
    Step b .requestStop { b with stopping := true }
  | beginStop (milliseconds : Nat) : b.owner = .holding →
    Step b (.beginStop milliseconds) { b with stopping := true, owner := .waiting milliseconds }
  | stopAgain (milliseconds : Nat) : b.owner = .joined →
    Step b (.beginStop milliseconds) { b with answers := b.answers ++ [.ok ()] }
  | receive {milliseconds : Nat} : b.owner = .waiting milliseconds → b.signal = .sent →
    Step b .notice { b with owner := .joining, signal := .received }
  | noticeLoss {milliseconds : Nat} : b.owner = .waiting milliseconds → b.signal = .lost →
    Step b .notice { b with owner := .joining }
  | timeOut {milliseconds : Nat} : b.owner = .waiting milliseconds →
    Step b .timeOut { b with
      owner := .holding
      answers := b.answers ++ [.error (.stopTimeout milliseconds)] }
  | join : b.owner = .joining → b.worker = .gone →
    Step b .join { b with owner := .joined, answers := b.answers ++ [.ok ()] }
  | drop : b.owner = .holding → Step b .drop { b with stopping := true, owner := .dropped }
  | dropJoined : b.owner = .joined → Step b .drop { b with owner := .dropped }
  | readLock : b.lock = none → Step b .readLock { b with lock := some .reader }
  | readUnlock : b.lock = some .reader → Step b .readUnlock { b with lock := none }

variable {b b' : Background α} {e : Event} {es : List Event}

/-- The steps are what `after?` allows. -/
theorem step_of_after? (h : b.after? e = some b') : Step b e b' := by
  cases e with
  | check | render | breakDown | count | signal | hangUp | exit =>
    simp only [after?, afterWorker?] at h
    split at h <;> cases h
    constructor
    assumption
  | lock =>
    simp only [after?, afterWorker?] at h
    split at h <;> cases h
    exact .lock ‹_› ‹_›
  | iterate =>
    simp only [after?, afterWorker?] at h
    split at h
    case h_2 => cases h
    case h_1 hw =>
      split at h <;> cases h
      exact .iterate hw ‹_›
  | unlock =>
    simp only [after?, afterWorker?] at h
    split at h
    case h_2 => cases h
    case h_1 hw =>
      split at h <;> cases h
      exact .unlock hw ‹_›
  | requestStop =>
    simp only [after?, afterOwner?] at h
    split at h <;> cases h
    · exact .requestStop (.inl ‹_›)
    · exact .requestStop (.inr ‹_›)
  | beginStop milliseconds =>
    simp only [after?, afterOwner?] at h
    split at h <;> cases h
    · exact .beginStop milliseconds ‹_›
    · exact .stopAgain milliseconds ‹_›
  | notice =>
    simp only [after?, afterOwner?] at h
    split at h <;> cases h
    · exact .receive ‹_› ‹_›
    · exact .noticeLoss ‹_› ‹_›
  | timeOut =>
    simp only [after?, afterOwner?] at h
    split at h <;> cases h
    exact .timeOut ‹_›
  | join =>
    simp only [after?, afterOwner?] at h
    split at h <;> cases h
    exact .join ‹_› ‹_›
  | drop =>
    simp only [after?, afterOwner?] at h
    split at h <;> cases h
    · exact .drop ‹_›
    · exact .dropJoined ‹_›
  | readLock =>
    simp only [after?, afterReader?] at h
    split at h <;> cases h
    exact .readLock ‹_›
  | readUnlock =>
    simp only [after?, afterReader?] at h
    split at h <;> cases h
    exact .readUnlock ‹_›

/-! ## Runs -/

theorem replay?_cons {b'' : Background α} :
    b.replay? (e :: es) = some b'' ↔ ∃ b', b.after? e = some b' ∧ b'.replay? es = some b'' := by
  rw [replay?, List.foldlM_cons]
  exact Option.bind_eq_some_iff

theorem replay?_append {es' : List Event} {b'' : Background α} :
    b.replay? (es ++ es') = some b'' ↔ ∃ b', b.replay? es = some b' ∧ b'.replay? es' = some b'' := by
  rw [replay?, List.foldlM_append]
  exact Option.bind_eq_some_iff

/-- What every step keeps, a run keeps. -/
theorem replay?_induction {motive : Background α → Prop}
    (step : ∀ {b e b'}, Step b e b' → motive b → motive b') (h : b.replay? es = some b')
    (hb : motive b) : motive b' := by
  induction es generalizing b with
  | nil => cases h; exact hb
  | cons e es ih =>
    obtain ⟨b₁, hstep, hrest⟩ := replay?_cons.mp h
    exact ih hrest (step (step_of_after? hstep) hb)

/-! ## The end of the loop -/

/-- A worker that has left its loop does not come back. -/
theorem Step.left (h : Step b e b') (hb : b.worker.Left) : b'.worker.Left ∧ ¬e.InLoop := by
  cases h with
  | check hw | lock hw _ | iterate hw _ | unlock hw _ | render hw | breakDown hw | count hw =>
    rw [hw] at hb
    cases hb
  | signal | hangUp | exit => exact ⟨trivial, not_false⟩
  | _ => exact ⟨hb, not_false⟩

/-- What the loop does: it counts ticks, iterates, and shows renders. -/
theorem Step.work_eq (h : Step b e b') (he : ¬e.InLoop) :
    b'.solver = b.solver ∧ b'.ticks = b.ticks ∧ b'.renders = b.renders := by
  cases h with
  | check | lock | iterate | unlock | render | breakDown | count => exact absurd trivial he
  | _ => exact ⟨rfl, rfl, rfl⟩

/-- Once the worker has left its loop, nothing more happens there, whatever anybody does. -/
theorem replay?_of_left (h : b.replay? es = some b') (hb : b.worker.Left) :
    (∀ e ∈ es, ¬e.InLoop) ∧ b'.solver = b.solver ∧ b'.ticks = b.ticks ∧ b'.renders = b.renders := by
  induction es generalizing b with
  | nil => cases h; exact ⟨by simp, rfl, rfl, rfl⟩
  | cons e es ih =>
    obtain ⟨b₁, hafter, hrest⟩ := replay?_cons.mp h
    have hstep := step_of_after? hafter
    obtain ⟨hleft, he⟩ := hstep.left hb
    obtain ⟨hes, hsolver, hticks, hrenders⟩ := ih hrest hleft
    obtain ⟨hsolver₁, hticks₁, hrenders₁⟩ := hstep.work_eq he
    exact ⟨List.forall_mem_cons.mpr ⟨he, hes⟩, hsolver.trans hsolver₁, hticks.trans hticks₁,
      hrenders.trans hrenders₁⟩

/-- The flag stays up. -/
theorem Step.stopping (h : Step b e b') (hb : b.stopping = true) : b'.stopping = true := by
  cases h with
  | requestStop | beginStop | drop => rfl
  | _ => exact hb

/-- The worker leaves its loop when it looks at the flag and finds it raised. -/
theorem not_inLoop_of_stopping {es₁ es₂ : List Event}
    (h : b.replay? (es₁ ++ .check :: es₂) = some b') (hb : b.stopping = true) :
    ∀ e ∈ es₂, ¬e.InLoop := by
  obtain ⟨b₁, hbefore, hrest⟩ := replay?_append.mp h
  obtain ⟨b₂, hcheck, hafter⟩ := replay?_cons.mp hrest
  have hflag : b₁.stopping = true := replay?_induction Step.stopping hbefore hb
  have hleft : b₂.worker.Left := by
    cases step_of_after? hcheck with
    | check _ =>
      rw [hflag]
      trivial
  exact (replay?_of_left hafter hleft).1

/-! ## What the owner knows -/

/-- What the owner has seen of the worker is so. -/
structure Truthful (b : Background α) : Prop where
  /-- A worker that has signalled, or can signal no more, is out of its loop. -/
  left_of_signal : b.signal = .silent ∨ b.worker = .ending ∨ b.worker = .gone
  signal_of_joining : b.owner = .joining → b.signal ≠ .silent
  gone_of_joined : b.owner = .joined → b.worker = .gone
  gone_of_ok : .ok () ∈ b.answers → b.worker = .gone
  /-- Only the owner of a worker that is gone need not wait for it. -/
  not_holding_of_ok : .ok () ∈ b.answers → b.owner = .joined ∨ b.owner = .dropped

omit [Scalar α] in
theorem truthful_start (s : Solver α) (hooked : Bool) : (start s hooked).Truthful where
  left_of_signal := .inl rfl
  signal_of_joining h := by cases h
  gone_of_joined h := by cases h
  gone_of_ok h := by cases h
  not_holding_of_ok h := by cases h

omit [Scalar α] in
/-- Of a worker that is still busy, nobody has seen the end. -/
theorem Truthful.unseen (h : b.Truthful) (hw : ¬(b.worker = .ending ∨ b.worker = .gone)) :
    b.signal = .silent ∧ b.owner ≠ .joining ∧ b.owner ≠ .joined ∧ .ok () ∉ b.answers := by
  have hsilent : b.signal = .silent := h.left_of_signal.resolve_right hw
  exact ⟨hsilent, fun hjoining => h.signal_of_joining hjoining hsilent,
    fun hjoined => hw (.inr (h.gone_of_joined hjoined)), fun hok => hw (.inr (h.gone_of_ok hok))⟩

omit [Scalar α] in
theorem Truthful.not_ok (h : b.Truthful)
    (ho : b.owner = .holding ∨ (∃ ms, b.owner = .waiting ms) ∨ b.owner = .joining) :
    .ok () ∉ b.answers := by
  intro hok
  obtain hb | hb := h.not_holding_of_ok hok <;> simp [hb] at ho

theorem Step.truthful (h : Step b e b') (hb : b.Truthful) : b'.Truthful := by
  cases h with
  | check hw | lock hw _ | iterate hw _ | unlock hw _ | render hw | breakDown hw | count hw
  | signal hw | hangUp hw =>
    obtain ⟨hsilent, hjoining, hjoined, hok⟩ := hb.unseen (by simp [hw])
    constructor
    case left_of_signal => first | exact .inl hsilent | exact .inr (.inl rfl)
    case signal_of_joining => exact fun h => absurd h hjoining
    case gone_of_joined => exact fun h => absurd h hjoined
    case gone_of_ok => exact fun h => absurd h hok
    case not_holding_of_ok => exact fun h => absurd h hok
  | exit hw =>
    exact ⟨.inr (.inr rfl), hb.signal_of_joining, fun _ => rfl, fun _ => rfl, hb.not_holding_of_ok⟩
  | requestStop | readLock | readUnlock => exact { hb with }
  | beginStop _ ho =>
    exact ⟨hb.left_of_signal, nofun, nofun, hb.gone_of_ok, fun hok => absurd hok (hb.not_ok (.inl ho))⟩
  | receive ho hs =>
    have hok := hb.not_ok (.inr (.inl ⟨_, ho⟩))
    have hleft := hb.left_of_signal.resolve_left (by simp [hs])
    exact ⟨.inr hleft, fun _ => nofun, nofun, fun h => absurd h hok, fun h => absurd h hok⟩
  | noticeLoss ho hs =>
    have hok := hb.not_ok (.inr (.inl ⟨_, ho⟩))
    exact ⟨hb.left_of_signal, fun _ => by simp [hs], nofun, fun h => absurd h hok,
      fun h => absurd h hok⟩
  | @timeOut milliseconds ho =>
    have hok : .ok () ∉ b.answers ++ [.error (.stopTimeout milliseconds)] := by
      simpa using hb.not_ok (.inr (.inl ⟨_, ho⟩))
    exact ⟨hb.left_of_signal, nofun, nofun, fun h => absurd h hok, fun h => absurd h hok⟩
  | stopAgain _ ho =>
    have hgone := hb.gone_of_joined ho
    exact ⟨hb.left_of_signal, hb.signal_of_joining, hb.gone_of_joined, fun _ => hgone,
      fun _ => .inl ho⟩
  | join ho hw => exact ⟨.inr (.inr hw), nofun, fun _ => hw, fun _ => hw, fun _ => .inl rfl⟩
  | drop ho =>
    have hok := hb.not_ok (.inl ho)
    exact ⟨hb.left_of_signal, nofun, nofun, fun h => absurd h hok, fun h => absurd h hok⟩
  | dropJoined ho =>
    exact ⟨hb.left_of_signal, nofun, nofun, hb.gone_of_ok, fun _ => .inr rfl⟩

/-! ## The work done -/

/-- What the render hook has been shown in so many ticks of the worker, if there is one. -/
def shown (s : Solver α) (hooked : Bool) (ticks : Nat) : List (List (Vec3 α)) :=
  if hooked then
    (List.range ticks).map fun k => (s.iterateN (s.params.iterationCount * (k + 1))).positions
  else []

theorem shown_succ (s : Solver α) (ticks : Nat) :
    shown s true (ticks + 1) =
      shown s true ticks ++ [(s.iterateN (s.params.iterationCount * (ticks + 1))).positions] := by
  simp [shown, List.range_succ]

/-- How many iterations there have been, and what has been rendered, by where the worker stands. -/
def Reached (s : Solver α) (hooked : Bool) (ticks iterations : Nat)
    (renders : List (List (Vec3 α))) : WorkerPhase α → Prop
  | .checking | .starting | .leaving | .ending | .gone =>
    iterations = s.params.iterationCount * ticks ∧ renders = shown s hooked ticks
  | .iterating quota done =>
    quota = s.params.iterationCount ∧ iterations = s.params.iterationCount * ticks + done ∧
      renders = shown s hooked ticks
  | .rendering snapshot =>
    iterations = s.params.iterationCount * (ticks + 1) ∧ renders = shown s hooked ticks ∧
      hooked = true ∧ snapshot = (s.iterateN iterations).positions
  | .counting =>
    iterations = s.params.iterationCount * (ticks + 1) ∧ renders = shown s hooked (ticks + 1)
  | .failing => False

/-- Where a worker has come that started with the solver `s`. -/
structure Progress (s : Solver α) (hooked : Bool) (b : Background α) (iterations : Nat) : Prop where
  solver_eq : b.solver = s.iterateN iterations
  hooked_eq : b.hooked = hooked
  reached : Reached s hooked b.ticks iterations b.renders b.worker

variable {s : Solver α} {hooked : Bool} {iterations : Nat}

theorem progress_start (s : Solver α) (hooked : Bool) : Progress s hooked (start s hooked) 0 where
  solver_eq := rfl
  hooked_eq := rfl
  reached := ⟨rfl, by cases hooked <;> rfl⟩

theorem eq_of_mayUnlock {quota done : Nat} (hquota : quota ≠ 0) (h : mayUnlock quota done = true) :
    done = quota := by
  simpa [mayUnlock, hquota] using h

theorem Step.progress (h : Step b e b') (hc : s.params.iterationCount ≠ 0) (he : e ≠ .breakDown)
    (hb : Progress s hooked b iterations) :
    Progress s hooked b' (iterations + if e == .iterate then 1 else 0) := by
  obtain ⟨hsolver, hhooked, hreached⟩ := hb
  cases h with
  | check hw =>
    rw [hw] at hreached
    refine ⟨hsolver, hhooked, ?_⟩
    change Reached _ _ _ _ _ (if b.stopping then .leaving else .starting)
    split <;> exact hreached
  | lock hw _ =>
    rw [hw] at hreached
    refine ⟨hsolver, hhooked, ?_, hreached⟩
    rw [hsolver, Solver.params_iterateN]
  | iterate hw _ =>
    rw [hw] at hreached
    obtain ⟨hquota, hiterations, hrenders⟩ := hreached
    exact ⟨congrArg Solver.iterate hsolver, hhooked, hquota, congrArg (· + 1) hiterations, hrenders⟩
  | unlock hw hdone =>
    rw [hw] at hreached
    obtain ⟨rfl, hiterations, hrenders⟩ := hreached
    obtain rfl := eq_of_mayUnlock hc hdone
    refine ⟨hsolver, hhooked, ?_⟩
    change Reached _ _ _ _ _ (if b.hooked then .rendering b.solver.positions else .counting)
    rw [← Nat.mul_succ] at hiterations
    cases hooked with
    | true =>
      rw [hhooked, if_pos rfl]
      exact ⟨hiterations, hrenders, rfl, congrArg Solver.positions hsolver⟩
    | false =>
      rw [hhooked, if_neg Bool.false_ne_true]
      exact ⟨hiterations, hrenders⟩
  | render hw =>
    rw [hw] at hreached
    obtain ⟨hiterations, hrenders, rfl, hsnapshot⟩ := hreached
    refine ⟨hsolver, hhooked, hiterations, ?_⟩
    rw [shown_succ, hrenders, hsnapshot, hiterations]
  | breakDown => exact absurd rfl he
  | count hw | signal hw | exit hw =>
    rw [hw] at hreached
    exact ⟨hsolver, hhooked, hreached⟩
  | hangUp hw =>
    rw [hw] at hreached
    cases hreached
  | _ => exact ⟨hsolver, hhooked, hreached⟩

theorem progress_replay? (h : b.replay? es = some b') (hc : s.params.iterationCount ≠ 0)
    (hes : .breakDown ∉ es) (hb : Progress s hooked b iterations) :
    Progress s hooked b' (iterations + es.count .iterate) := by
  induction es generalizing b iterations with
  | nil => cases h; exact hb
  | cons e es ih =>
    obtain ⟨b₁, hafter, hrest⟩ := replay?_cons.mp h
    rw [List.mem_cons, not_or] at hes
    have hstep := (step_of_after? hafter).progress hc (Ne.symm hes.1) hb
    rw [List.count_cons, Nat.add_comm (es.count _), ← Nat.add_assoc]
    exact ih hrest hes.2 hstep

/-! ## Stopping -/

/-- What is so after events of a run that started with the solver `s`. -/
structure StopsInOrder (s : Solver α) (hooked : Bool) (es : List Event) (b : Background α) :
    Prop where
  gone_of_ok : .ok () ∈ b.answers → b.worker = .gone
  /-- Once the worker is out of its loop, it does no more work. -/
  still : b.worker.Left → ∀ es' b', b.replay? es' = some b' →
    (∀ e ∈ es', ¬e.InLoop) ∧ b'.solver = b.solver ∧ b'.ticks = b.ticks ∧ b'.renders = b.renders
  /-- A call to stop that waits no longer for a signal has no tick to wait for. -/
  left_of_joining : b.owner = .joining → b.worker.Left
  /-- A call to stop succeeds only when the worker is gone, and leaves everything with the owner as it
  was when it times out. -/
  answered : ∀ e b', b.after? e = some b' → b'.answers = b.answers ∨
    (b'.answers = b.answers ++ [.ok ()] ∧ b.worker = .gone) ∨
    ∃ milliseconds, b.owner = .waiting milliseconds ∧
      b' = { b with
        owner := .holding
        answers := b.answers ++ [.error (.stopTimeout milliseconds)] }
  /-- An owner that has a worker does not stop it without waiting for it. -/
  waits : b.owner = .holding → .ok () ∉ b.answers ∧ ∀ milliseconds,
    b.after? (.beginStop milliseconds) =
      some { b with stopping := true, owner := .waiting milliseconds }
  /-- No tick starts after the worker has looked at a raised flag. -/
  last_tick : b.stopping = true → ∀ es₁ es₂ b', b.replay? (es₁ ++ .check :: es₂) = some b' →
    ∀ e ∈ es₂, ¬e.InLoop
  iterations_eq : .breakDown ∉ es → b.worker.Left →
    es.count .iterate = s.params.iterationCount * b.ticks ∧
      b.solver = s.iterateN (s.params.iterationCount * b.ticks)
  renders_eq : .breakDown ∉ es → b.worker.Left → hooked = true → b.renders.length = b.ticks ∧
    ∀ k < b.ticks,
      b.renders[k]? = some (s.iterateN (s.params.iterationCount * (k + 1))).positions

/-- Of a worker out of its loop that did not break down, the work is a whole number of ticks. -/
theorem Progress.of_left (hb : Progress s hooked b iterations) (hleft : b.worker.Left) :
    iterations = s.params.iterationCount * b.ticks ∧ b.renders = shown s hooked b.ticks := by
  have hreached := hb.reached
  cases hw : b.worker with
  | leaving | ending | gone =>
    rw [hw] at hreached
    exact hreached
  | failing =>
    rw [hw] at hreached
    cases hreached
  | checking | starting | iterating | rendering | counting =>
    rw [hw] at hleft
    cases hleft

/-- Whatever the interleaving, a background run stops in order. -/
theorem stops_in_order (hc : s.params.iterationCount ≠ 0)
    (h : (start s hooked).replay? es = some b) : StopsInOrder s hooked es b := by
  have htruthful := replay?_induction Step.truthful h (truthful_start s hooked)
  have hprogress (hes : .breakDown ∉ es) : Progress s hooked b (es.count .iterate) := by
    simpa using progress_replay? h hc hes (progress_start s hooked)
  constructor
  case gone_of_ok => exact htruthful.gone_of_ok
  case still => exact fun hleft es' b' hrest => replay?_of_left hrest hleft
  case left_of_joining =>
    intro hjoining
    have hsignal := htruthful.signal_of_joining hjoining
    obtain hw | hw := htruthful.left_of_signal.resolve_left hsignal <;> (rw [hw]; trivial)
  case answered =>
    intro e b' hafter
    cases step_of_after? hafter with
    | timeOut ho => exact .inr (.inr ⟨_, ho, rfl⟩)
    | stopAgain _ ho => exact .inr (.inl ⟨rfl, htruthful.gone_of_joined ho⟩)
    | join _ hw => exact .inr (.inl ⟨rfl, hw⟩)
    | _ => exact .inl rfl
  case waits =>
    intro hholding
    refine ⟨htruthful.not_ok (.inl hholding), fun milliseconds => ?_⟩
    simp only [after?, afterOwner?, hholding]
  case last_tick => exact fun hflag es₁ es₂ b' hrest => not_inLoop_of_stopping hrest hflag
  case iterations_eq =>
    intro hes hleft
    obtain ⟨hiterations, _⟩ := (hprogress hes).of_left hleft
    exact ⟨hiterations, hiterations ▸ (hprogress hes).solver_eq⟩
  case renders_eq =>
    intro hes hleft hhooked
    obtain ⟨_, hrenders⟩ := (hprogress hes).of_left hleft
    subst hhooked
    rw [hrenders, shown, if_pos rfl]
    refine ⟨by simp, fun k hk => ?_⟩
    rw [List.getElem?_map, List.getElem?_range hk]
    rfl

/-- A first call to stop times out while the only tick is being rendered, a second one waits for the
same worker, and a third one has nothing to wait for. -/
theorem stops_in_order_second_time :
    let s : Solver Binary64 := Solver.new { Params.default with iterationCount := 2 }
    let es : List Event :=
      [.check, .lock, .iterate, .iterate, .unlock, .beginStop 20, .readLock, .timeOut, .render,
        .readUnlock, .count, .beginStop 5000, .check, .signal, .notice, .exit, .join, .beginStop 10]
    ∃ b, (start s true).replay? es = some b ∧
      b.answers = [.error (.stopTimeout 20), .ok (), .ok ()] ∧ b.ticks = 1 ∧
      StopsInOrder s true es b := by
  intro s es
  have hrun : ∃ b, (start s true).replay? es = some b ∧
      b.answers = [.error (.stopTimeout 20), .ok (), .ok ()] ∧ b.ticks = 1 := ⟨_, rfl, rfl, rfl⟩
  obtain ⟨b, hb, hanswers, hticks⟩ := hrun
  exact ⟨b, hb, hanswers, hticks, stops_in_order (by decide) hb⟩

end Background
end Relaxation
