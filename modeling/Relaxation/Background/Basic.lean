import Relaxation.Solver.Iterate

/-!
# Background runs

A worker iterates a solver tick by tick while its owner does other things. In every tick the
worker looks at the stop flag, locks the solver, iterates, copies the node positions, unlocks the
solver, hands the copy to a render hook if there is one, and counts the tick. The flag is looked at
only between ticks, so a tick that has begun ends with its render before the worker leaves the loop,
signals that it is done, and ends.

The owner may ask for a stop without waiting. Or it stops the worker: it raises the flag and waits
for the signal. If the wait runs out, the owner still keeps the worker, and may stop it again;
otherwise it waits until the worker has ended, too. A worker whose render hook breaks down gives no
signal, but the owner notices that none will come.

A run is a sequence of events, each of the worker, of the owner or of somebody else who reads the
solver. `after?` says which events are possible in a state and what they lead to, so the interleavings
of all parties are the sequences of events that `replay?` accepts.
-/

namespace Relaxation

/-- Where the worker stands. -/
inductive WorkerPhase (α : Type) where
  /-- About to look at the stop flag. -/
  | checking
  /-- About to lock the solver. -/
  | starting
  /-- In a tick of `quota` iterations, of which some are done, with the solver locked. -/
  | iterating (quota done : Nat)
  /-- About to hand a snapshot to the render hook, or waiting for the hook to return. -/
  | rendering (snapshot : List (Vec3 α))
  /-- About to count the tick. -/
  | counting
  /-- Out of the loop, about to signal. -/
  | leaving
  /-- On its way out because the render hook has broken down. -/
  | failing
  /-- About to end, with nothing left to say. -/
  | ending
  | gone
  deriving Repr, DecidableEq

/-- What there is to know from the worker about its end. -/
inductive DoneSignal where
  | silent
  /-- The worker has signalled that it is done, and nobody has noticed yet. -/
  | sent
  | received
  /-- The worker can signal no more, and never did. -/
  | lost
  deriving Repr, DecidableEq

/-- Who has locked the solver. -/
inductive LockHolder where
  | worker
  | reader
  deriving Repr, DecidableEq

/-- How the owner stands to the worker. -/
inductive OwnerPhase where
  /-- Keeps the worker. -/
  | holding
  /-- In a call to stop, waiting for a signal for at most some time. -/
  | waiting (milliseconds : Nat)
  /-- In a call to stop, waiting for the worker to end. -/
  | joining
  /-- Has seen the worker end. -/
  | joined
  /-- Has let go of the worker without waiting. -/
  | dropped
  deriving Repr, DecidableEq

structure Background (α : Type) where
  solver : Solver α
  lock : Option LockHolder
  /-- The stop flag. -/
  stopping : Bool
  /-- The ticks completed. -/
  ticks : Nat
  /-- Whether there is a render hook. -/
  hooked : Bool
  /-- What the render hook has been shown, in order. -/
  renders : List (List (Vec3 α))
  worker : WorkerPhase α
  signal : DoneSignal
  owner : OwnerPhase
  /-- What the calls to stop gave, in order. -/
  answers : List (Checked α Unit)
  deriving Repr

namespace Background

inductive Event where
  /-- The worker looks at the stop flag. -/
  | check
  | lock
  | iterate
  | unlock
  /-- The render hook returns. -/
  | render
  /-- The render hook breaks down, and the worker with it. -/
  | breakDown
  | count
  /-- The worker signals that it is done. -/
  | signal
  /-- The worker that broke down gives up the means to signal. -/
  | hangUp
  | exit
  /-- The owner raises the stop flag and goes on. -/
  | requestStop
  /-- The owner calls stop. Without a worker to wait for, the call returns at once. -/
  | beginStop (milliseconds : Nat)
  /-- The owner notices a signal, or that there will be none. -/
  | notice
  /-- The call to stop gives up waiting. -/
  | timeOut
  /-- The call to stop returns because the worker has ended. -/
  | join
  /-- The owner lets go of the worker, which asks for a stop. -/
  | drop
  /-- Somebody else locks the solver to read it. -/
  | readLock
  | readUnlock
  deriving Repr, DecidableEq

variable {α : Type} [Scalar α]

def start (solver : Solver α) (hooked : Bool) : Background α :=
  { solver
    lock := none
    stopping := false
    ticks := 0
    hooked
    renders := []
    worker := .checking
    signal := .silent
    owner := .holding
    answers := [] }

/-- Whether the owner has a worker that is still there. -/
def isRunning (b : Background α) : Bool :=
  match b.owner, b.worker with
  | .holding, .gone => false
  | .holding, _ => true
  | _, _ => false

/-- Whether a tick may end after `done` iterations. One of quota zero is bounded by time instead,
and has at least one iteration. -/
def mayUnlock (quota done : Nat) : Bool := if quota == 0 then 0 < done else done == quota

/-- Whether a tick may go on after `done` iterations. -/
def mayIterate (quota done : Nat) : Bool := quota == 0 || done < quota

/-- The state after an event of the worker. -/
def afterWorker? (b : Background α) : Event → Option (Background α)
  | .check =>
    match b.worker with
    | .checking => some { b with worker := if b.stopping then .leaving else .starting }
    | _ => none
  | .lock =>
    match b.worker, b.lock with
    | .starting, none =>
      some { b with lock := some .worker, worker := .iterating b.solver.params.iterationCount 0 }
    | _, _ => none
  | .iterate =>
    match b.worker with
    | .iterating quota done =>
      if mayIterate quota done then
        some { b with solver := b.solver.iterate, worker := .iterating quota (done + 1) }
      else none
    | _ => none
  | .unlock =>
    match b.worker with
    | .iterating quota done =>
      if mayUnlock quota done then
        let worker := if b.hooked then .rendering b.solver.positions else .counting
        some { b with lock := none, worker }
      else none
    | _ => none
  | .render =>
    match b.worker with
    | .rendering snapshot =>
      some { b with renders := b.renders ++ [snapshot], worker := .counting }
    | _ => none
  | .breakDown =>
    match b.worker with
    | .rendering _ => some { b with worker := .failing }
    | _ => none
  | .count =>
    match b.worker with
    | .counting => some { b with ticks := b.ticks + 1, worker := .checking }
    | _ => none
  | .signal =>
    match b.worker with
    | .leaving => some { b with worker := .ending, signal := .sent }
    | _ => none
  | .hangUp =>
    match b.worker with
    | .failing => some { b with worker := .ending, signal := .lost }
    | _ => none
  | .exit =>
    match b.worker with
    | .ending => some { b with worker := .gone }
    | _ => none
  | _ => none

/-- The state after an event of the owner. -/
def afterOwner? (b : Background α) : Event → Option (Background α)
  | .requestStop =>
    match b.owner with
    | .holding | .joined => some { b with stopping := true }
    | _ => none
  | .beginStop milliseconds =>
    match b.owner with
    | .holding => some { b with stopping := true, owner := .waiting milliseconds }
    | .joined => some { b with answers := b.answers ++ [.ok ()] }
    | _ => none
  | .notice =>
    match b.owner, b.signal with
    | .waiting _, .sent => some { b with owner := .joining, signal := .received }
    | .waiting _, .lost => some { b with owner := .joining }
    | _, _ => none
  | .timeOut =>
    match b.owner with
    | .waiting milliseconds =>
      some { b with
        owner := .holding
        answers := b.answers ++ [.error (.stopTimeout milliseconds)] }
    | _ => none
  | .join =>
    match b.owner, b.worker with
    | .joining, .gone => some { b with owner := .joined, answers := b.answers ++ [.ok ()] }
    | _, _ => none
  | .drop =>
    match b.owner with
    | .holding => some { b with stopping := true, owner := .dropped }
    | .joined => some { b with owner := .dropped }
    | _ => none
  | _ => none

/-- The state after somebody else has locked or unlocked the solver. -/
def afterReader? (b : Background α) : Event → Option (Background α)
  | .readLock =>
    match b.lock with
    | none => some { b with lock := some .reader }
    | some _ => none
  | .readUnlock =>
    match b.lock with
    | some .reader => some { b with lock := none }
    | _ => none
  | _ => none

/-- The state after an event, if it is possible. -/
def after? (b : Background α) (e : Event) : Option (Background α) :=
  match e with
  | .check | .lock | .iterate | .unlock | .render | .breakDown | .count | .signal | .hangUp
  | .exit => b.afterWorker? e
  | .requestStop | .beginStop _ | .notice | .timeOut | .join | .drop => b.afterOwner? e
  | .readLock | .readUnlock => b.afterReader? e

/-- The state after a sequence of events, if each of them is possible in its turn. -/
def replay? (b : Background α) (events : List Event) : Option (Background α) :=
  events.foldlM after? b

end Background
end Relaxation
