import Relaxation.Background.Basic

/-!
# Courses of background runs

A course is a run of a given number of ticks that ends in a given way. The worker is held up by
the render hook of its last tick while the owner makes its first move; then the hook lets it go,
and the owner stops it for good unless it has let go of it already. In a course without a hook
the owner waits for the ticks and then stops the worker.
-/

namespace Relaxation

/-- The first move of the owner while the worker is held up. -/
inductive Ending where
  | request
  /-- A call to stop that times out. -/
  | timeout (milliseconds : Nat)
  | drop
  deriving Repr, DecidableEq

/-- The states of a run that its owner can look at. -/
structure Course (α : Type) where
  /-- While the worker is held up, or after the ticks if there is no hook. -/
  held : Background α
  /-- After the owner's first move. -/
  asked : Background α
  ended : Background α
  deriving Repr

namespace Background

/-- The worker's events in a tick until it has unlocked the solver, with as few iterations as may
be. -/
def approach (quota : Nat) : List Event :=
  [.check, .lock] ++ List.replicate (max quota 1) .iterate ++ [.unlock]

/-- The worker's events once the render hook lets it go. -/
def finish : List Event := [.render, .count]

/-- The worker's events after the stop flag was raised. -/
def leave : List Event := [.check, .signal, .exit]

/-- A call to stop that waits for the worker to end. The time that it gives the worker does not run
out. -/
def stop : List Event := [.beginStop 5000, .notice, .join]

/-- The worker's events in a number of whole ticks, each with an end of its own. -/
def ticksEvents (quota ticks : Nat) (finish : List Event) : List Event :=
  (List.replicate ticks (approach quota ++ finish)).flatten

end Background

namespace Ending

open Background

/-- The owner's first move. -/
def opening : Ending → List Event
  | request => [.requestStop]
  | timeout milliseconds => [.beginStop milliseconds, .timeOut]
  | drop => [.drop]

/-- What the owner does after the worker has left: it stops the worker, and tries once more. -/
def closing : Ending → List Event
  | request | timeout _ => stop ++ [.beginStop 5000]
  | drop => []

end Ending

namespace Course

open Background

variable {α : Type} [Scalar α]

/-- What the calls to stop gave. -/
def stops (c : Course α) : List (Checked α Unit) := c.ended.answers

/-- The course of a number of ticks, the last of which is held up in its render hook; `none` for
no ticks, which the hook could not hold up. -/
def ofEnding? (solver : Solver α) (ticks : Nat) (ending : Ending) : Option (Course α) := do
  if ticks == 0 then failure
  let quota := solver.params.iterationCount
  let held ← (start solver true).replay? (ticksEvents quota (ticks - 1) finish ++ approach quota)
  let asked ← held.replay? ending.opening
  let ended ← asked.replay? (finish ++ leave ++ ending.closing)
  return { held, asked, ended }

/-- The course of a number of ticks that nothing holds up, stopped after the last. -/
def ofTicks? (solver : Solver α) (ticks : Nat) : Option (Course α) := do
  let held ← (start solver false).replay? (ticksEvents solver.params.iterationCount ticks [.count])
  let asked ← held.replay? [.beginStop 5000]
  let ended ← asked.replay? (leave ++ [.notice, .join])
  return { held, asked, ended }

end Course
end Relaxation
