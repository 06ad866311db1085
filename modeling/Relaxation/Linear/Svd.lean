import Relaxation.Fault
import Relaxation.Linear.Bidiagonal

/-!
# Singular value decomposition

`Svd.decompose` reduces a matrix to bidiagonal form and then chases the superdiagonal to zero by
implicitly shifted rotations, one singular value at a time from the last to the first. An entry
counts as zero when adding it to the size of the matrix changes nothing. The singular values
come out non-negative and in no particular order; `Svd.sorted` puts them in descending order.
-/

namespace Relaxation

/-- The factors of `u * diag(w) * vᵀ`. -/
structure Svd (m n : Nat) (α : Type) where
  u : DenseMatrix m n α
  w : Vector α n
  v : DenseMatrix n n α

/-- A decomposition under way: the product `u * b * vᵀ` stays fixed, where `b` has the diagonal
`w` and the superdiagonal `e`. -/
structure Diagonalization (m n : Nat) (α : Type) extends Svd m n α where
  e : Vector α n

/-- Where the trailing block that ends in a given row begins, and why. -/
inductive BlockStart (n : Nat) where
  /-- The superdiagonal entry before the row vanishes, or the row is the first. -/
  | split (row : Fin n)
  /-- The diagonal entry of the row above, `above`, vanishes. -/
  | cancel (above row : Fin n)

namespace BlockStart

def row {n : Nat} : BlockStart n → Fin n
  | split r => r
  | cancel _ r => r

end BlockStart

namespace Diagonalization

variable {α : Type} [Scalar α] {m n : Nat}

open Scalar

/-- The decomposition that a reduction comes to, with its reflections accumulated. -/
def ofReduction (h : n ≤ m) (r : Reduction m n α) : Diagonalization m n α :=
  ⟨⟨r.accumulateLeft h, r.diagonal, r.accumulateRight h⟩, r.superdiagonal⟩

/-- Looks for the start of the block that ends in row `l`, upwards from there. -/
def blockStart (size : α) (d : Diagonalization m n α) : (l : Nat) → l < n → BlockStart n
  | 0, h => .split ⟨0, h⟩
  | l + 1, h =>
    if negligible d.e[l + 1] size then .split ⟨l + 1, h⟩
    else if negligible d.w[l] size then .cancel ⟨l, by omega⟩ ⟨l + 1, h⟩
    else blockStart size d l (by omega)

/-- A cancellation under way: the rotation to apply next, and whether the entry to be cancelled
has vanished. -/
structure Cancellation (m n : Nat) (α : Type) where
  state : Diagonalization m n α
  c : α
  s : α
  finished : Bool

/-- Rotates the superdiagonal entry of row `i` into the row below, against row `above`. -/
def cancelRow (size : α) (above : Fin n) (x : Cancellation m n α) (i : Fin n) :
    Cancellation m n α :=
  let d := x.state
  let f := x.s * d.e.get i
  let d := { d with e := d.e.set i (d.e.get i * x.c) i.isLt }
  if negligible f size then ⟨d, x.c, x.s, true⟩
  else
    let g := d.w.get i
    let h := hypot f g
    let inverse := recip h
    let c := g * inverse
    let s := -f * inverse
    ⟨{ d with w := d.w.set i h i.isLt, u := d.u.rotateColumns above i c s }, c, s, false⟩

/-- Makes the superdiagonal entry beside the zero diagonal entry of row `above` vanish, working
down from row `l` to row `k`. -/
def cancel (size : α) (above l k : Fin n) (d : Diagonalization m n α) : Diagonalization m n α :=
  let final := Fin.foldl n
    (fun x i => if x.finished || i < l || k < i then x else cancelRow size above x i)
    ⟨d, 0, 1, false⟩
  final.state

/-- Splits off the trailing block that ends in row `k`; gives its first row. -/
def deflate (size : α) (k : Fin n) (d : Diagonalization m n α) : Fin n × Diagonalization m n α :=
  match blockStart size d k.val k.isLt with
  | .split l => (l, d)
  | .cancel above l => (l, cancel size above l k d)

/-- The first entry of the shifted matrix, with the shift from the bottom minor of the block of
rows `l` to `k`. -/
def shift (d : Diagonalization m n α) (l above k : Fin n) : α :=
  let x := d.w.get l
  let y := d.w.get above
  let z := d.w.get k
  let g := d.e.get above
  let h := d.e.get k
  let f := ((y - z) * (y + z) + (g - h) * (g + h)) / (2.0 * h * y)
  let g := hypot f 1
  ((x - z) * (x + z) + h * ((y / (f + withSignOf g f)) - h)) / x

/-- A sweep under way: `f` is the entry to be rotated away, `x` the diagonal entry in work, and
`c` and `s` the latest rotation. -/
structure Sweep (m n : Nat) (α : Type) where
  state : Diagonalization m n α
  f : α
  x : α
  c : α
  s : α

/-- Moves the bulge past row `j`, to row `i` below it. -/
def sweepRow (a : Sweep m n α) (j i : Fin n) : Sweep m n α :=
  let d := a.state
  let g := d.e.get i
  let y := d.w.get i
  let h := a.s * g
  let g := a.c * g
  let z := hypot a.f h
  let e := d.e.set j z j.isLt
  let c := a.f / z
  let s := h / z
  let f := a.x * c + g * s
  let g := g * c - a.x * s
  let h := y * s
  let y := y * c
  let v := d.v.rotateColumns j i c s
  let z := hypot f h
  let w := d.w.set j z j.isLt
  let (c, s) := if z == 0 then (c, s) else (f * recip z, h * recip z)
  let u := d.u.rotateColumns j i c s
  ⟨⟨⟨u, w, v⟩, e⟩, c * g + s * y, c * y - s * g, c, s⟩

/-- One implicitly shifted sweep over the block of rows `l` to `k`. -/
def sweep (l k : Fin n) (d : Diagonalization m n α) : Diagonalization m n α :=
  let above : Fin n := ⟨k.val - 1, by omega⟩
  let start : Sweep m n α := ⟨d, shift d l above k, d.w.get l, 1, 1⟩
  let final := Fin.foldl k.val
    (fun a j =>
      if j.val < l.val then a else sweepRow a ⟨j.val, by omega⟩ ⟨j.val + 1, by omega⟩)
    start
  { final.state with
    e := (final.state.e.set l 0 l.isLt).set k final.f k.isLt
    w := final.state.w.set k final.x k.isLt }

/-- Makes the diagonal entry `k` non-negative. -/
def makeNonNegative (k : Fin n) (d : Diagonalization m n α) : Diagonalization m n α :=
  if d.w.get k < 0 then
    { d with w := d.w.set k (-d.w.get k) k.isLt, v := d.v.negateColumn k }
  else d

/-- Runs sweeps until the diagonal entry `k` stands alone; `none` when `fuel` splittings were not
enough. -/
def settle (size : α) (k : Fin n) : Nat → Diagonalization m n α → Option (Diagonalization m n α)
  | 0, _ => none
  | fuel + 1, d =>
    let (l, d) := deflate size k d
    if l = k then some (makeNonNegative k d) else settle size k fuel (sweep l k d)

/-- Settles the diagonal entry `k`, or gives up. -/
def settleRow (fuel : Nat) (size : α) (d : Diagonalization m n α) (k : Fin n) :
    Checked α (Diagonalization m n α) :=
  match settle size k fuel d with
  | some d => pure d
  | none => throw (.svdNoConvergence k.val fuel)

/-- Settles the diagonal entries from the last to the first. -/
def run (fuel : Nat) (size : α) (d : Diagonalization m n α) :
    Checked α (Diagonalization m n α) :=
  (List.finRange n).reverse.foldlM (settleRow fuel size) d

end Diagonalization

namespace Svd

variable {α : Type} [Scalar α] {m n : Nat}

/-- The splittings allowed for one singular value. -/
def maxSweeps : Nat := 30

/-- The decomposition of `a`, which has at least as many rows as columns, and a column. -/
def decompose (a : DenseMatrix m n α) : Checked α (Svd m n α) :=
  if h : n ≤ m ∧ n ≠ 0 then
    let r := Reduction.ofMatrix h.1 a
    return (← (Diagonalization.ofReduction h.1 r).run maxSweeps r.size).toSvd
  else .error (.svdShape m n)

/-- The indices of the singular values in descending order of the values. -/
def descending (w : Vector α n) : List (Fin n) :=
  (List.finRange n).mergeSort fun i j => !Scalar.totalLt (w.get i) (w.get j)

/-- The same decomposition with the singular values in descending order. -/
def sorted (d : Svd m n α) : Svd m n α :=
  let order : Vector (Fin n) n := ⟨(descending d.w).toArray, by simp [descending]⟩
  ⟨d.u.permuteColumns order, Vector.ofFn fun i => d.w.get (order.get i), d.v.permuteColumns order⟩

/-- The matrix `u * diag(w) * vᵀ`. -/
def recompose (d : Svd m n α) : DenseMatrix m n α :=
  d.u * DenseMatrix.diagonal d.w * d.v.transpose

end Svd
end Relaxation
