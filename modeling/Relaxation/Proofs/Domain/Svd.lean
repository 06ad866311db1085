import Relaxation.Proofs.Domain.Bidiagonal
import Relaxation.Proofs.Linear.Svd

/-!
# The singular value decomposition inside the domain

A block that is swept has no zero on its diagonal, the last entry apart, or on its superdiagonal, for it
was split off where the first of them vanishes. So the shift is defined, and each column rotation of a
sweep has a bulge to turn (`Diagonalization.Sweeping.sine_ne_zero`).
-/

namespace Relaxation.Domain

noncomputable section

open Diagonalization

variable {m n : ℕ}

/-! ## Splitting off a block -/

/-- The bidiagonal form with both of its factors. -/
def ofReduction? (h : n ≤ m) (r : Reduction m n ℝ) : Option (Diagonalization m n ℝ) := do
  return ⟨⟨← accumulateLeft? h r, r.diagonal, ← accumulateRight? h r⟩, r.superdiagonal⟩

theorem ofReduction?_eq_some (h : n ≤ m) (a : DenseMatrix m n ℝ) :
    ofReduction? h (Reduction.ofMatrix h a) = some (ofReduction h (Reduction.ofMatrix h a)) := by
  rw [ofReduction?, accumulateLeft?_eq_some (Reduction.ofMatrix_stored h a),
    accumulateRight?_eq_some (rowStored_ofMatrix h a)]
  rfl

/-- One entry beside the diagonal cancelled against the diagonal, until one is negligible. -/
def cancelRow? (size : ℝ) (above : Fin n) (x : Cancellation m n ℝ) (i : Fin n) :
    Option (Cancellation m n ℝ) :=
  let d := x.state
  let f := x.s * d.e.get i
  let d := { d with e := d.e.set i (d.e.get i * x.c) i.isLt }
  if Scalar.negligible f size then some ⟨d, x.c, x.s, true⟩
  else do
    let g := d.w.get i
    let h := Scalar.hypot f g
    let inverse ← recip? h
    let c := g * inverse
    let s := -f * inverse
    return ⟨{ d with w := d.w.set i h i.isLt, u := d.u.rotateColumns above i c s }, c, s, false⟩

/-- The entry to be cancelled is a leg of the triangle. -/
theorem cancelRow?_eq_some (size : ℝ) (above : Fin n) (x : Cancellation m n ℝ) (i : Fin n) :
    cancelRow? size above x i = some (cancelRow size above x i) := by
  unfold cancelRow? cancelRow
  dsimp only
  split
  case isTrue => rfl
  case isFalse hlarge =>
    have hne : Scalar.hypot (x.s * x.state.e.get i) (x.state.w.get i) ≠ 0 := fun hzero =>
      hlarge (Scalar.negligible_real_iff.mpr (Scalar.hypot_eq_zero_iff.mp hzero).1)
    rw [recip?_eq_some hne]
    rfl

/-- Row by row from the start of a block, what a vanishing diagonal entry above leaves is rotated
away. -/
def cancel? (size : ℝ) (above l k : Fin n) (d : Diagonalization m n ℝ) :
    Option (Diagonalization m n ℝ) := do
  let final ← Fin.foldlM n
    (fun x i => if x.finished || i < l || k < i then some x else cancelRow? size above x i)
    ⟨d, 0, 1, false⟩
  return final.state

theorem cancel?_eq_some (size : ℝ) (above l k : Fin n) (d : Diagonalization m n ℝ) :
    cancel? size above l k d = some (cancel size above l k d) := by
  rw [cancel?, foldlM_fin_eq_some (motive := fun _ _ => True) trivial fun i x _ => ⟨?_, trivial⟩]
  · rfl
  · split
    case isTrue => rfl
    case isFalse => exact cancelRow?_eq_some size above x i

/-- The start of the block that ends at a row, after it is split off. -/
def deflate? (size : ℝ) (k : Fin n) (d : Diagonalization m n ℝ) :
    Option (Fin n × Diagonalization m n ℝ) :=
  match blockStart size d k.val k.isLt with
  | .split l => some (l, d)
  | .cancel above l => (cancel? size above l k d).map (l, ·)

theorem deflate?_eq_some (size : ℝ) (k : Fin n) (d : Diagonalization m n ℝ) :
    deflate? size k d = some (deflate size k d) := by
  unfold deflate? deflate
  cases blockStart size d k.val k.isLt with
  | split l => rfl
  | cancel above l => exact congrArg (Option.map _) (cancel?_eq_some size above l k d)

/-! ## Sweeping a block -/

/-- The shift of a sweep, from the last two rows of the block. -/
def shift? (d : Diagonalization m n ℝ) (l above k : Fin n) : Option ℝ := do
  let x := d.w.get l
  let y := d.w.get above
  let z := d.w.get k
  let g := d.e.get above
  let h := d.e.get k
  let f ← div? ((y - z) * (y + z) + (g - h) * (g + h)) (2.0 * h * y)
  let g := Scalar.hypot f 1
  let quotient ← div? y (f + Scalar.withSignOf g f)
  div? ((x - z) * (x + z) + h * (quotient - h)) x

/-- Adding to a number one that is at least one and has the same sign moves it away from zero. -/
theorem add_withSignOf_hypot_ne_zero (f : ℝ) : f + Scalar.withSignOf (Scalar.hypot f 1) f ≠ 0 := by
  have hpos : 0 < |Scalar.hypot f 1| :=
    abs_pos.mpr fun hzero => one_ne_zero (Scalar.hypot_eq_zero_iff.mp hzero).2
  unfold Scalar.withSignOf
  rw [Scalar.abs_real]
  split
  next h => exact (add_pos_of_nonneg_of_pos h hpos).ne'
  next h => exact (add_neg (not_le.mp h) (neg_neg_of_pos hpos)).ne

theorem shift?_eq_some {l above k : Fin n} {d : Diagonalization m n ℝ} (hx : d.w.get l ≠ 0)
    (hy : d.w.get above ≠ 0) (hh : d.e.get k ≠ 0) :
    shift? d l above k = some (shift d l above k) := by
  have htwo : (2.0 : ℝ) ≠ 0 := by norm_num
  simp only [shift?, div?_eq_some (mul_ne_zero (mul_ne_zero htwo hh) hy), Option.bind_eq_bind,
    Option.bind_some, div?_eq_some (add_withSignOf_hypot_ne_zero _), div?_eq_some hx]
  rfl

/-- The cosine and sine with the legs `f` and `h` of a hypotenuse `z`, others in place of them if it
vanishes. -/
def cosineSine? (f h z c s : ℝ) : Option (ℝ × ℝ) :=
  if z == 0 then some (c, s)
  else do
    let inverse ← recip? z
    return (f * inverse, h * inverse)

theorem cosineSine?_eq_some (f h z c s : ℝ) : cosineSine? f h z c s =
    some (if z == 0 then (c, s) else (f * Scalar.recip z, h * Scalar.recip z)) := by
  unfold cosineSine?
  split
  case isTrue => rfl
  case isFalse hz =>
    rw [recip?_eq_some fun hzero => hz (Scalar.beq_real_iff.mpr hzero)]
    rfl

/-- One row of a sweep: a rotation from the right, then one from the left. -/
def sweepRow? (a : Sweep m n ℝ) (j i : Fin n) : Option (Sweep m n ℝ) := do
  let d := a.state
  let g := d.e.get i
  let y := d.w.get i
  let h := a.s * g
  let g := a.c * g
  let z := Scalar.hypot a.f h
  let e := d.e.set j z j.isLt
  let c ← div? a.f z
  let s ← div? h z
  let f := a.x * c + g * s
  let g := g * c - a.x * s
  let h := y * s
  let y := y * c
  let v := d.v.rotateColumns j i c s
  let z := Scalar.hypot f h
  let w := d.w.set j z j.isLt
  let (c, s) ← cosineSine? f h z c s
  let u := d.u.rotateColumns j i c s
  return ⟨⟨⟨u, w, v⟩, e⟩, c * g + s * y, c * y - s * g, c, s⟩

/-- A bulge other than zero is a leg of the triangle that is divided by. -/
theorem sweepRow?_eq_some {a : Sweep m n ℝ} {j i : Fin n} (h : a.s * a.state.e.get i ≠ 0) :
    sweepRow? a j i = some (sweepRow a j i) := by
  have hz : Scalar.hypot a.f (a.s * a.state.e.get i) ≠ 0 := fun hzero =>
    h (Scalar.hypot_eq_zero_iff.mp hzero).2
  simp only [sweepRow?, div?_eq_some hz, cosineSine?_eq_some, Option.bind_eq_bind, Option.bind_some]
  rfl

theorem above_lt (k : Fin n) : k.val - 1 < n := lt_of_le_of_lt (Nat.sub_le _ 1) k.isLt

theorem row_lt (k : Fin n) (j : Fin k.val) : j.val < n := lt_trans j.isLt k.isLt

theorem next_lt (k : Fin n) (j : Fin k.val) : j.val + 1 < n :=
  lt_of_le_of_lt (Nat.succ_le_of_lt j.isLt) k.isLt

/-- The sweep, named apart from that of the Jacobi rotations. -/
def sweepBlock? (l k : Fin n) (d : Diagonalization m n ℝ) : Option (Diagonalization m n ℝ) := do
  let above : Fin n := ⟨k.val - 1, above_lt k⟩
  let start : Sweep m n ℝ := ⟨d, ← shift? d l above k, d.w.get l, 1, 1⟩
  let final ← Fin.foldlM k.val
    (fun a j =>
      if j.val < l.val then some a
      else sweepRow? a ⟨j.val, row_lt k j⟩ ⟨j.val + 1, next_lt k j⟩)
    start
  return { final.state with
    e := (final.state.e.set l 0 l.isLt).set k final.f k.isLt
    w := final.state.w.set k final.x k.isLt }

theorem sweepBlock?_eq_some {a : Matrix (Fin m) (Fin n) ℝ} {l k : Fin n}
    {d : Diagonalization m n ℝ} (hd : Split a l k d) (hlk : l ≠ k) :
    sweepBlock? l k d = some (sweep l k d) := by
  have hlt : l < k := lt_of_le_of_ne hd.block.le hlk
  have habove : l.val ≤ k.val - 1 := Nat.le_sub_one_of_lt hlt
  have hshift : shift? d l ⟨k.val - 1, above_lt k⟩ k = some (shift d l ⟨k.val - 1, above_lt k⟩ k) :=
    shift?_eq_some (hd.block.diagonal_ne_zero l le_rfl hlt)
      (hd.block.diagonal_ne_zero _ habove (Fin.lt_def.mpr (by dsimp only; omega)))
      (hd.block.superdiagonal_ne_zero k hlt le_rfl)
  have hstart := sweeping_start hd (shift d l ⟨k.val - 1, above_lt k⟩ k)
  rw [sweepBlock?, hshift, Option.bind_eq_bind, Option.bind_some]
  dsimp only
  rw [foldlM_fin_eq_some (motive := fun i r => Sweeping a l k (max l.val i.val) r)
    (by simpa using hstart) fun j r hr => ⟨?_, sweeping_succ hr⟩]
  · rfl
  split
  case isTrue => rfl
  case isFalse hskip =>
    rw [Fin.val_castSucc, max_eq_right (not_lt.mp hskip)] at hr
    exact sweepRow?_eq_some (mul_ne_zero (hr.sine_ne_zero j.isLt)
      (hr.superdiagonal_ne_zero _ (Nat.lt_succ_self _) (Nat.succ_le_of_lt j.isLt)))

/-! ## The whole decomposition -/

/-- The sweeps for one row, until its block is the row alone or the fuel is used up. -/
def settle? (size : ℝ) (k : Fin n) :
    ℕ → Diagonalization m n ℝ → Option (Option (Diagonalization m n ℝ))
  | 0, _ => some none
  | fuel + 1, d => do
    let (l, d) ← deflate? size k d
    if l = k then some (some (makeNonNegative k d))
    else settle? size k fuel (← sweepBlock? l k d)

/-- What each sweep needs is an invariant of the run: the factors of the matrix and the rows settled
so far. -/
theorem settle?_eq_some {a : Matrix (Fin m) (Fin n) ℝ} (size : ℝ) {k : Fin n} (fuel : ℕ)
    {d : Diagonalization m n ℝ} (hd : Factors a d ∧ Settled (k + 1) d) :
    settle? size k fuel d = some (settle size k fuel d) ∧
      ∀ z, settle size k fuel d = some z → Factors a z ∧ Settled k z := by
  induction fuel generalizing d with
  | zero => exact ⟨rfl, nofun⟩
  | succ fuel ih =>
    have hsplit := split_deflate size hd.1 hd.2
    rw [settle?, deflate?_eq_some, settle, Option.bind_eq_bind, Option.bind_some]
    generalize deflate size k d = x at hsplit
    obtain ⟨l, d⟩ := x
    dsimp only at hsplit ⊢
    by_cases hl : l = k
    · subst hl
      rw [if_pos rfl, if_pos rfl]
      refine ⟨rfl, fun z hz => ?_⟩
      cases hz
      exact makeNonNegative_factors hsplit
    · rw [if_neg hl, if_neg hl, sweepBlock?_eq_some hsplit hl]
      exact ih (sweep_factors hsplit hl)

/-- The run over the rows that are left. -/
def settleRows? (fuel : ℕ) (size : ℝ) :
    List (Fin n) → Diagonalization m n ℝ → Option (Checked ℝ (Diagonalization m n ℝ))
  | [], d => some (.ok d)
  | k :: ks, d => do
    match ← settle? size k fuel d with
    | some d => settleRows? fuel size ks d
    | none => some (.error (.svdNoConvergence k.val fuel))

theorem settleRows?_eq_some {a : Matrix (Fin m) (Fin n) ℝ} (fuel : ℕ) (size : ℝ) {i : ℕ}
    (hi : i ≤ n) {d : Diagonalization m n ℝ} (hd : Factors a d ∧ Settled i d) :
    settleRows? fuel size ((List.finRange n).take i).reverse d =
      some (((List.finRange n).take i).reverse.foldlM (settleRow fuel size) d) := by
  induction i generalizing d with
  | zero => rfl
  | succ i ih =>
    obtain ⟨hsettle, hsettled⟩ := settle?_eq_some size (k := ⟨i, hi⟩) fuel hd
    rw [reverse_take_finRange ⟨i, hi⟩, settleRows?, List.foldlM_cons, settleRow, hsettle,
      Option.bind_eq_bind, Option.bind_some]
    cases hz : settle size ⟨i, hi⟩ fuel d with
    | none => rfl
    | some z => exact ih (Nat.le_of_lt hi) (hsettled z hz)

/-- The decomposition of a matrix with no more columns than rows, and with one at least. -/
def decompose? (a : DenseMatrix m n ℝ) : Option (Checked ℝ (Svd m n ℝ)) :=
  if h : n ≤ m then
    if n = 0 then some (.error (.svdShape m n))
    else do
      let r ← reduce? h a
      let d ← ofReduction? h r
      let z ← settleRows? Svd.maxSweeps r.size (List.finRange n).reverse d
      return z.map Diagonalization.toSvd
  else some (.error (.svdShape m n))

theorem settleRows?_eq_some_run {a : Matrix (Fin m) (Fin n) ℝ} (fuel : ℕ) (size : ℝ)
    {d : Diagonalization m n ℝ} (hd : Factors a d) :
    settleRows? fuel size (List.finRange n).reverse d = some (run fuel size d) := by
  have hrows := settleRows?_eq_some fuel size le_rfl ⟨hd, settled_of_le le_rfl d⟩
  rwa [List.take_of_length_le (by simp)] at hrows

/-- No quotient, reciprocal or root of a decomposition is without value, also if it is given up. -/
theorem decompose?_eq_some (a : DenseMatrix m n ℝ) : decompose? a = some (Svd.decompose a) := by
  by_cases h : n ≤ m ∧ n ≠ 0
  · rw [decompose?, dif_pos h.1, if_neg h.2, Svd.decompose, dif_pos h, reduce?_eq_some,
      Option.bind_eq_bind, Option.bind_some, ofReduction?_eq_some, Option.bind_eq_bind,
      Option.bind_some, settleRows?_eq_some_run _ _ (Svd.ofReduction_factors h.1 a),
      Option.bind_eq_bind, Option.bind_some]
    dsimp only
    cases run Svd.maxSweeps (Reduction.ofMatrix h.1 a).size
      (ofReduction h.1 (Reduction.ofMatrix h.1 a)) <;> rfl
  · rw [Svd.decompose, dif_neg h, decompose?]
    split
    case isTrue hle => exact if_pos (not_not.mp fun hn => h ⟨hle, hn⟩)
    case isFalse => rfl

end

end Relaxation.Domain
