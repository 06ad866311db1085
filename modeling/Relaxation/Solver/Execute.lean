import Relaxation.Solver.Iterate

/-!
# Executing

`Solver.execute` iterates until the kinetic energy drops below a threshold, at most a given
number of times, and reports how it ended.
-/

namespace Relaxation

structure ExecutionBounds (α : Type) where
  maxIterations : Nat
  energyThreshold : α
  deriving Repr

def ExecutionBounds.default {α : Type} [Scalar α] : ExecutionBounds α :=
  { maxIterations := 1000
    energyThreshold := 1e-12 }

structure ExecutionReport (α : Type) where
  /-- The iterations run. -/
  iterations : Nat
  /-- The kinetic energy at the end. -/
  kineticEnergy : α
  /-- Whether the energy after the last iteration was below the threshold. -/
  converged : Bool
  deriving Repr

namespace Solver

variable {α : Type} [Scalar α]

/-- Iterates at most `fuel` times, after `done` iterations. -/
def executeFrom (threshold : α) (done : Nat) : Nat → Solver α → Solver α × ExecutionReport α
  | 0, s => (s, ⟨done, s.kineticEnergy, false⟩)
  | fuel + 1, s =>
    let s := s.iterate
    if s.kineticEnergy < threshold then (s, ⟨done + 1, s.kineticEnergy, true⟩)
    else executeFrom threshold (done + 1) fuel s

def execute (bounds : ExecutionBounds α) (s : Solver α) : Solver α × ExecutionReport α :=
  executeFrom bounds.energyThreshold 0 bounds.maxIterations s

end Solver
end Relaxation
