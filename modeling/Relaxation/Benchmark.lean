import Relaxation.Cloth
import Relaxation.Decimal.Notation
import Relaxation.Linear.Svd
import Relaxation.Linear.Svd3
import Relaxation.Scalar.Binary64

/-!
# Benchmarks

What is timed: iterations of cloths of growing size, and decompositions of many matrices of order
three by both procedures. How work is timed is left to the caller.
-/

namespace Relaxation.Benchmark

/-- The numbers of nodes along the edges of the cloths. -/
def clothSizes : List Nat := [10, 20, 40, 80, 160]

/-- The iterations of one cloth over which the mean is taken. -/
def steps : Nat := 20

/-- The numbers of matrices. -/
def matrixCounts : List Nat := [1000, 10000, 100000]

/-- The entries of the matrix of a number. -/
def entry (k row column : Nat) : Binary64 :=
  .ofFloat ((Nat.toFloat k * 0.37 + Nat.toFloat (3 * row + column) * 1.3).sin * 5.0)

def mat3 (k : Nat) : Mat3 Binary64 :=
  let column (c : Nat) : Vec3 Binary64 := ⟨entry k 0 c, entry k 1 c, entry k 2 c⟩
  ⟨column 0, column 1, column 2⟩

def matrix (k : Nat) : DenseMatrix 3 3 Binary64 := DenseMatrix.ofFn fun r c => entry k r c

/-- The sum of the first singular values of the first matrices, by the procedure of fixed cost. -/
def fixedSum (count : Nat) : Binary64 :=
  (List.range count).foldl (fun sum k => sum + (Svd3.decompose (mat3 k)).s.x) 0

/-- The sum of the largest singular values of the first matrices, by the general procedure. -/
def generalSum (count : Nat) : Checked Binary64 Binary64 :=
  (List.range count).foldlM (fun sum k =>
    return sum + ((← Svd.decompose (matrix k)).w.toList.foldl Scalar.max 0)) 0

def seconds (t : Float) : String := Decimal.blankPadded 8 (Decimal.fixed 6 t) ++ " s"

def counted (width n : Nat) : String := Decimal.blankPadded width (toString n)

section

variable {m : Type → Type} [Monad m]

/-- Does the work that a caller knows how to time, which may fail. -/
def checked {β : Type} (timed : {γ : Type} → (Unit → γ) → m (γ × Float))
    (work : Unit → Checked Binary64 β) : ExceptT (Fault Binary64) m (β × Float) := do
  let (b, time) ← timed work
  return (← ExceptT.mk (pure b), time)

/-- The line about the cloth of a size. -/
def clothLine (timed : {γ : Type} → (Unit → γ) → m (γ × Float)) (n : Nat) :
    ExceptT (Fault Binary64) m String := do
  let (s, build) ← checked timed fun _ => Cloth.make n
  let (s, _) ← timed fun _ => s.iterate
  let (s, run) ← timed fun _ => s.iterateN steps
  return "grid = " ++ counted 4 n ++ "x" ++ String.ofList ((toString n).toList.rightpad 4 ' ') ++
    " nodes = " ++ counted 6 s.nodes.size ++ ", goals = " ++ counted 6 s.goals.size ++
    ", build = " ++ seconds build ++ ", iteration = " ++ seconds (run / Nat.toFloat steps)

/-- The line about a number of matrices. -/
def matrixLine (timed : {γ : Type} → (Unit → γ) → m (γ × Float)) (count : Nat) :
    ExceptT (Fault Binary64) m String := do
  let (fast, fastTime) ← timed fun _ => fixedSum count
  let (general, generalTime) ← checked timed fun _ => generalSum count
  return "count = " ++ counted 7 count ++ ", fast = " ++ seconds fastTime ++ ", generic = " ++
    seconds generalTime ++ ", max sum diff = " ++ Decimal.scientific 3 (fast - general).abs.float

/-- Runs all benchmarks and gives the lines to print. -/
def run (timed : {γ : Type} → (Unit → γ) → m (γ × Float)) :
    ExceptT (Fault Binary64) m (List String) := do
  return (← clothSizes.mapM (clothLine timed)) ++ (← matrixCounts.mapM (matrixLine timed))

end

end Relaxation.Benchmark
