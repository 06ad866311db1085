import Relaxation.Scalar

/-!
# Solver settings
-/

namespace Relaxation

structure Params (α : Type) where
  /-- Positions closer than this share a node. -/
  mergeThreshold : α
  /-- The iterations of one background tick; none means a tick of fixed duration. -/
  iterationCount : Nat
  /-- The factor that slows a node down when its move opposes its velocity. -/
  damping : α
  /-- Whether nodes keep their velocity from one iteration to the next. -/
  momentum : Bool
  /-- Whether a grabbed node is pulled toward the pointer. -/
  pointerPull : Bool
  deriving Repr

namespace Params

variable {α : Type} [Scalar α]

def default : Params α :=
  { mergeThreshold := 1e-3
    iterationCount := 10
    damping := 0.9
    momentum := true
    pointerPull := false }

def withMergeThreshold (threshold : α) (p : Params α) : Params α :=
  { p with mergeThreshold := Scalar.abs threshold }

def withDamping (damping : α) (p : Params α) : Params α :=
  { p with damping := Scalar.clamp damping 0 1 }

/-- The settings with a threshold that is not negative and a damping factor of at most one. -/
def normalized (p : Params α) : Params α :=
  (p.withMergeThreshold p.mergeThreshold).withDamping p.damping

end Params
end Relaxation
