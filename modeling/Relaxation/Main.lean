import Relaxation.CommandLine

/-!
# The program

Files, the clock and the terminal around the command line.
-/

namespace Relaxation

/-- The text of a file, if there is a readable file of that name. -/
def readText? (name : String) : IO (Option String) := do
  try
    return some (← IO.FS.readFile name)
  catch _ =>
    return none

/-- Runs whole ticks until the clock shows `deadline`. -/
partial def tickUntil (deadline : Nat) (s : Solver Binary64) : IO (Solver Binary64) := do
  if deadline ≤ (← IO.monoMsNow) then return s
  tickUntil deadline s.tick

def runBackground (milliseconds : Nat) (s : Solver Binary64) : IO (Solver Binary64) := do
  tickUntil ((← IO.monoMsNow) + milliseconds) s

/-- Does some work and tells how many seconds it took. -/
def timed {β : Type} (work : Unit → β) : IO (β × Float) := do
  let start ← IO.monoNanosNow
  let b ← IO.lazyPure work
  let finish ← IO.monoNanosNow
  return (b, (finish - start).toFloat / 1e9)

/-- The files and the clock of the machine, for a program of a given name. -/
def surroundings (program : String) : CommandLine.Surroundings IO :=
  ⟨program, readText?, runBackground, timed⟩

end Relaxation

def main (arguments : List String) : IO UInt32 := do
  let program := (← IO.appPath).fileName.getD "relaxation"
  match ← Relaxation.CommandLine.run (Relaxation.surroundings program) arguments with
  | .ok lines =>
    lines.forM fun line => IO.println line
    return 0
  | .error failure =>
    IO.eprintln ("error: " ++ failure.message)
    return failure.exitCode.toUInt32
