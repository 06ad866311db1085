import Relaxation.Proofs.Linear.Accumulation
import Relaxation.Proofs.Linear.Sweep

/-!
# The singular value decomposition

Every pass over a diagonalization starts from a factorization of the matrix that was given, so the
result is one with a non-negative diagonal matrix in the middle.
-/

namespace Relaxation

open Matrix

variable {m n : ℕ}

namespace Diagonalization

/-- The passes of `run` from `start`: row `k` is to be split off from `d`, with `fuel` passes
left for it. -/
inductive Visits {α : Type} [Scalar α] (size : α) (total : ℕ) (start : Diagonalization m n α) :
    Fin n → ℕ → Diagonalization m n α → Prop
  /-- The first pass splits off the last row. -/
  | first {k : Fin n} (hk : k.val + 1 = n) : Visits size total start k total start
  /-- After a sweep there is another pass for the same row. -/
  | sweep {k l : Fin n} {fuel : ℕ} {d d' : Diagonalization m n α}
      (hd : Visits size total start k (fuel + 1) d) (hsplit : deflate size k d = (l, d'))
      (hl : l ≠ k) : Visits size total start k fuel (sweep l k d')
  /-- Once a row stands alone, the passes for the row above it begin. -/
  | next {k above : Fin n} {fuel : ℕ} {d d' : Diagonalization m n α}
      (hd : Visits size total start k (fuel + 1) d) (hsplit : deflate size k d = (k, d'))
      (hk : above.val + 1 = k.val) : Visits size total start above total (makeNonNegative k d')

theorem reverse_take_finRange (k : Fin n) :
    ((List.finRange n).take (k + 1)).reverse = k :: ((List.finRange n).take k).reverse := by
  rw [List.take_add_one, List.getElem?_eq_getElem (by simp), List.getElem_finRange]
  simp

/-- From every pass the run goes on as from the start. -/
theorem Visits.run_eq {α : Type} [Scalar α] {size : α} {total : ℕ} {start : Diagonalization m n α}
    {k : Fin n} {fuel : ℕ} {d : Diagonalization m n α} (hd : Visits size total start k fuel d) :
    run total size start =
      match settle size k fuel d with
      | some z => ((List.finRange n).take k).reverse.foldlM (settleRow total size) z
      | none => throw (.svdNoConvergence k.val total) := by
  induction hd with
  | @first k hk =>
    have hrows : (List.finRange n).reverse = k :: ((List.finRange n).take k).reverse := by
      rw [← reverse_take_finRange, hk, List.take_of_length_le (by simp)]
    rw [run, hrows, List.foldlM_cons, settleRow]
    cases settle size k total start <;> rfl
  | sweep _ hsplit hl ih =>
    rw [ih, settle, hsplit]
    dsimp only
    rw [if_neg hl]
  | @next k above _ _ d' _ hsplit hk ih =>
    have hrows : ((List.finRange n).take k).reverse =
        above :: ((List.finRange n).take above).reverse := by
      rw [← reverse_take_finRange, hk]
    rw [ih, settle, hsplit]
    dsimp only
    rw [if_pos rfl]
    dsimp only
    rw [hrows, List.foldlM_cons, settleRow]
    cases settle size above total (makeNonNegative k d') <;> rfl

/-- At the start no row has to be settled. -/
theorem settled_of_le {i : ℕ} (hi : n ≤ i) (d : Diagonalization m n ℝ) : Settled i d where
  superdiagonal j hj _ := absurd j.isLt (hi.trans hj).not_gt
  nonneg j hj := absurd j.isLt (hi.trans hj).not_gt

/-- The sign of a negative value goes to a column of the right factor. -/
theorem makeNonNegative_factors {a : Matrix (Fin m) (Fin n) ℝ} {k : Fin n}
    {d : Diagonalization m n ℝ} (hd : Split a k k d) :
    Factors a (makeNonNegative k d) ∧ Settled k (makeNonNegative k d) := by
  have hcut : ∀ q : Fin n, k.val ≤ q.val → 0 < q.val → d.e.get q = 0 := fun q hq hq0 => by
    rcases hq.lt_or_eq with hq | hq
    · exact hd.settled.superdiagonal q hq hq0
    · obtain rfl : k = q := Fin.ext hq
      exact hd.cut hq0
  unfold makeNonNegative
  split
  next hneg =>
    refine ⟨hd.factors.negate_right (j := k) fun p q => ?_, hcut, fun q hq => ?_⟩
    · rcases eq_or_ne q k with rfl | hqk
      · have hcut := hcut q le_rfl
        simp only [bidiagonal, of_apply, if_true, get_set] at hcut ⊢
        split_ifs with hpq hpq'
        · rfl
        · rw [hcut (hpq' ▸ Nat.succ_pos _), neg_zero]
        · exact neg_zero.symm
      · have hkq : k.val ≠ q.val := fun h => hqk (Fin.ext h.symm)
        simp only [bidiagonal, of_apply, hqk, hkq, if_false, get_set]
    · rcases hq.lt_or_eq with hq | hq
      · have hkq : k.val ≠ q.val := hq.ne
        simpa [hkq] using hd.settled.nonneg q hq
      · obtain rfl : k = q := Fin.ext hq
        simpa using hneg.le
  next hpos =>
    refine ⟨hd.factors, hcut, fun q hq => ?_⟩
    rcases hq.lt_or_eq with hq | hq
    · exact hd.settled.nonneg q hq
    · obtain rfl : k = q := Fin.ext hq
      exact not_lt.mp hpos

/-- Every pass starts from a factorization, with the rows below settled. -/
theorem Visits.factors {a : Matrix (Fin m) (Fin n) ℝ} {size : ℝ} {total : ℕ}
    {start : Diagonalization m n ℝ} (hstart : Factors a start) {k : Fin n} {fuel : ℕ}
    {d : Diagonalization m n ℝ} (hd : Visits size total start k fuel d) :
    Factors a d ∧ Settled (k + 1) d := by
  induction hd with
  | first hk =>
    exact ⟨hstart, settled_of_le hk.ge _⟩
  | sweep _ hsplit hl ih =>
    have hdeflate := split_deflate size ih.1 ih.2
    rw [hsplit] at hdeflate
    exact sweep_factors hdeflate hl
  | next _ hsplit hk ih =>
    have hdeflate := split_deflate size ih.1 ih.2
    rw [hsplit] at hdeflate
    rw [hk]
    exact makeNonNegative_factors hdeflate

/-- A row that comes to stand alone does so in one of its passes. -/
theorem Visits.settle_eq_some {size : ℝ} {total : ℕ} {start : Diagonalization m n ℝ} {k : Fin n}
    {fuel : ℕ} {d z : Diagonalization m n ℝ} (hd : Visits size total start k fuel d)
    (hz : settle size k fuel d = some z) :
    ∃ fuel' d' d'', Visits size total start k (fuel' + 1) d' ∧ deflate size k d' = (k, d'') ∧
      makeNonNegative k d'' = z := by
  induction fuel generalizing d with
  | zero => simp [settle] at hz
  | succ fuel ih =>
    obtain ⟨l, d', hdeflate⟩ : ∃ l d', deflate size k d = (l, d') := ⟨_, _, rfl⟩
    rw [settle, hdeflate] at hz
    dsimp only at hz
    split at hz
    next hl =>
      subst hl
      exact ⟨fuel, d, d', hd, hdeflate, Option.some.inj hz⟩
    next hl => exact ih (hd.sweep hdeflate hl) hz

/-- A run that comes to an end has settled every row. -/
theorem run_factors {a : Matrix (Fin m) (Fin n) ℝ} {total : ℕ} {size : ℝ}
    {start z : Diagonalization m n ℝ} (hstart : Factors a start)
    (hz : run total size start = .ok z) : Factors a z ∧ Settled 0 z := by
  have hfinal := Checked.foldlM_finRange_induction (motive := fun i d => Factors a d ∧
    Settled i d ∧ ∀ k : Fin n, k.val + 1 = i.val → Visits size total start k total d)
    ⟨hstart, settled_of_le le_rfl _, fun k hk => .first hk⟩ (fun k d d' hd hd' => ?_) hz
  · exact ⟨hfinal.1, hfinal.2.1⟩
  obtain ⟨-, -, hvisits⟩ := hd
  unfold settleRow at hd'
  split at hd'
  next z hsettle =>
    cases hd'
    obtain ⟨fuel, d₁, d₂, hpass, hdeflate, rfl⟩ := (hvisits k rfl).settle_eq_some hsettle
    have hfactors := hpass.factors hstart
    have hsplit := split_deflate size hfactors.1 hfactors.2
    rw [hdeflate] at hsplit
    obtain ⟨hz, hsettled⟩ := makeNonNegative_factors hsplit
    exact ⟨hz, hsettled, fun above hk => hpass.next hdeflate hk⟩
  next hsettle => cases hd'

end Diagonalization

namespace Svd

theorem ofReduction_factors (h : n ≤ m) (a : DenseMatrix m n ℝ) :
    Diagonalization.Factors a.toMatrix
      (Diagonalization.ofReduction h (Reduction.ofMatrix h a)) where
  product := Reduction.ofMatrix_product h a
  left_orthonormal := Reduction.accumulateLeft_orthonormal h (Reduction.ofMatrix_stored h a)
  right_orthonormal := Reduction.accumulateRight_orthonormal h (Reduction.ofMatrix_stored h a)

/-- Once every row is settled the superdiagonal is zero. -/
theorem bidiagonal_of_settled {d : Diagonalization m n ℝ} (hd : d.Settled 0) :
    bidiagonal d.w d.e = Matrix.diagonal fun i => d.w.get i := by
  ext p q
  have hq := hd.superdiagonal q (Nat.zero_le _)
  simp only [bidiagonal, of_apply, Matrix.diagonal_apply, Fin.ext_iff]
  split_ifs with hpq hpq'
  · rw [Fin.ext hpq]
  · exact hq (hpq' ▸ Nat.succ_pos _)
  · rfl

/-! ### A matrix of rank one

Its first column is zero, so a zero on the diagonal faces an entry of the superdiagonal that does
not vanish and has to be cancelled.
-/

section

open Diagonalization Reduction

/-- A matrix of rank one, which the reduction leaves with zeros on the diagonal. -/
noncomputable def nilpotent : DenseMatrix 2 2 ℝ := ⟨#v[#v[0, 1], #v[0, 0]]⟩

/-- Its reduction, whose only reflection is that of the first row. -/
noncomputable def nilpotentReduction : Reduction 2 2 ℝ :=
  ⟨⟨#v[#v[0, 2], #v[0, 0]]⟩, #v[0, 0], #v[0, -1], 1⟩

/-- The factorization before the first pass, with a superdiagonal entry beside the zero. -/
noncomputable def nilpotentStart : Diagonalization 2 2 ℝ :=
  ⟨⟨⟨#v[#v[1, 0], #v[0, 1]]⟩, #v[0, 0], ⟨#v[#v[1, 0], #v[0, -1]]⟩⟩, #v[0, -1]⟩

/-- The factorization when that entry has been cancelled. -/
noncomputable def nilpotentEnd : Diagonalization 2 2 ℝ :=
  ⟨⟨⟨#v[#v[0, -1], #v[1, 0]]⟩, #v[0, 1], ⟨#v[#v[1, 0], #v[0, -1]]⟩⟩, #v[0, 0]⟩

theorem ofFn_two (f : Fin 2 → Fin 2 → ℝ) :
    DenseMatrix.ofFn f = ⟨#v[#v[f 0 0, f 0 1], #v[f 1 0, f 1 1]]⟩ := rfl

theorem vector_ofFn_two (f : Fin 2 → ℝ) : Vector.ofFn f = #v[f 0, f 1] := rfl

theorem ofMatrix_nilpotent : ofMatrix le_rfl nilpotent = nilpotentReduction := by
  have hfirst : reflectColumn le_rfl nilpotent 0 = (nilpotent, 0) := by
    simp [reflectColumn, DenseMatrix.sumFrom, Fin.foldl_succ, nilpotent]
  have hrow : reflectRow le_rfl nilpotent 0 1 = (nilpotentReduction.matrix, -1) := by
    norm_num [reflectRow, DenseMatrix.sumFrom, Fin.foldl_succ, nilpotent, nilpotentReduction,
      Scalar.withSignOf, ofFn_two, vector_ofFn_two]
  have hsecond : reflectColumn le_rfl nilpotentReduction.matrix 1 =
      (nilpotentReduction.matrix, 0) := by
    simp [reflectColumn, DenseMatrix.sumFrom, Fin.foldl_succ, nilpotentReduction]
  have hstep : step le_rfl ⟨nilpotent, #v[0, 0], #v[0, 0], 0⟩ 0 =
      ⟨nilpotentReduction.matrix, #v[0, 0], #v[0, -1], 0⟩ := by
    simp [step, hfirst, hrow]
  have hlast : step le_rfl ⟨nilpotentReduction.matrix, #v[0, 0], #v[0, -1], 0⟩ 1 =
      nilpotentReduction := by
    simp [step, hsecond]
    rfl
  have hzeros : Vector.replicate 2 (0 : ℝ) = #v[0, 0] := rfl
  rw [ofMatrix, hzeros, Fin.foldl_succ, hstep, Fin.foldl_succ, Fin.foldl_zero]
  exact hlast

theorem ofReduction_nilpotent : ofReduction le_rfl nilpotentReduction = nilpotentStart := by
  have hzero : (0 : DenseMatrix 2 2 ℝ) = ⟨#v[#v[0, 0], #v[0, 0]]⟩ := rfl
  norm_num [ofReduction, accumulateLeft, accumulateRight, Fin.foldr_succ, accumulateLeftStep,
    accumulateRightStep, ofFn_two, vector_ofFn_two, DenseMatrix.sumFrom, Fin.foldl_succ, bordered,
    hzero, nilpotentReduction, nilpotentStart]

theorem deflate_nilpotent : deflate 1 1 nilpotentStart = (1, nilpotentEnd) := by
  have hlarge : Scalar.negligible (-1 : ℝ) 1 = false := by
    rw [Bool.eq_false_iff, ne_eq, Scalar.negligible_real_iff]
    norm_num
  have hsmall : Scalar.negligible (0 : ℝ) 1 = true := Scalar.negligible_real_iff.mpr rfl
  have hstart : blockStart 1 nilpotentStart (1 : Fin 2).val (1 : Fin 2).isLt = .cancel 0 1 := by
    simp [blockStart, nilpotentStart, hlarge, hsmall]
  have hrow : cancelRow 1 0 ⟨nilpotentStart, 0, 1, false⟩ 1 = ⟨nilpotentEnd, 0, 1, false⟩ := by
    simp [cancelRow, nilpotentStart, nilpotentEnd, Vector.get, hlarge,
      DenseMatrix.rotateColumns, ofFn_two]
  simp only [deflate, hstart]
  simp [cancel, Fin.foldl_succ, hrow]

theorem decompose_nilpotent : decompose nilpotent = .ok nilpotentEnd.toSvd := by
  have hsecond : settle 1 1 maxSweeps nilpotentStart = some nilpotentEnd := by
    rw [maxSweeps, settle, deflate_nilpotent]
    simp [makeNonNegative, nilpotentEnd, Vector.get]
  have hfirst : settle 1 0 maxSweeps nilpotentEnd = some nilpotentEnd := by
    simp [maxSweeps, settle, deflate, blockStart, makeNonNegative, nilpotentEnd,
      Vector.get]
  have hrows : (List.finRange 2).reverse = [1, 0] := rfl
  have hsize : nilpotentReduction.size = 1 := rfl
  have hrun : run maxSweeps 1 nilpotentStart = .ok nilpotentEnd := by
    rw [run, hrows, List.foldlM_cons, settleRow, hsecond]
    simp [settleRow, hfirst]
    rfl
  unfold decompose
  rw [dif_pos (by decide), ofMatrix_nilpotent]
  dsimp only
  rw [ofReduction_nilpotent, hsize, hrun]
  rfl

end

/-- A decomposition that succeeds is read off a diagonalization with all rows settled. -/
theorem exists_factors_of_decompose {a : DenseMatrix m n ℝ} {d : Svd m n ℝ}
    (hd : decompose a = .ok d) :
    ∃ z : Diagonalization m n ℝ, z.Factors a.toMatrix ∧ z.Settled 0 ∧ z.toSvd = d := by
  unfold decompose at hd
  split at hd
  next hshape =>
    obtain ⟨z, hz, hd⟩ := Checked.bind_eq_ok.mp hd
    cases hd
    obtain ⟨hfactors, hsettled⟩ :=
      Diagonalization.run_factors (ofReduction_factors hshape.1 a) hz
    exact ⟨z, hfactors, hsettled, rfl⟩
  next hshape => cases hd

/-- The product as the source writes it, entry by entry, is that of the three matrices. -/
theorem toMatrix_recompose (d : Svd m n ℝ) :
    d.recompose.toMatrix =
      d.u.toMatrix * Matrix.diagonal (fun i => d.w.get i) * d.v.toMatrixᵀ := by
  rw [recompose, DenseMatrix.toMatrix_mul, DenseMatrix.toMatrix_mul,
    DenseMatrix.toMatrix_diagonal, DenseMatrix.toMatrix_transpose]

/-- Every pass of the decomposition of `a` starts from a factorization of `a`, and so the result is
one into orthonormal columns and non-negative values, whatever the rank of `a`. -/
theorem decompose_factors (h : n ≤ m) (a : DenseMatrix m n ℝ) :
    (∀ k fuel d, Diagonalization.Visits (Reduction.ofMatrix h a).size maxSweeps
        (Diagonalization.ofReduction h (Reduction.ofMatrix h a)) k fuel d →
      d.u.toMatrix * bidiagonal d.w d.e * d.v.toMatrixᵀ = a.toMatrix ∧
        d.u.toMatrixᵀ * d.u.toMatrix = 1 ∧ d.v.toMatrixᵀ * d.v.toMatrix = 1) ∧
    ∀ d, decompose a = .ok d →
      d.recompose = a ∧ (∀ i : Fin n, 0 ≤ d.w.get i) ∧
        d.u.toMatrixᵀ * d.u.toMatrix = 1 ∧ d.v.toMatrixᵀ * d.v.toMatrix = 1 := by
  have hstart := ofReduction_factors h a
  refine ⟨fun k fuel d hd => ?_, fun d hd => ?_⟩
  · obtain ⟨hfactors, -⟩ := hd.factors hstart
    exact ⟨hfactors.product, hfactors.left_orthonormal, hfactors.right_orthonormal⟩
  · unfold decompose at hd
    split at hd
    next hshape =>
      obtain ⟨z, hz, hd⟩ := Checked.bind_eq_ok.mp hd
      cases hd
      obtain ⟨hfactors, hsettled⟩ := Diagonalization.run_factors hstart hz
      refine ⟨DenseMatrix.toMatrix_injective ?_, fun i => hsettled.nonneg i (Nat.zero_le _),
        hfactors.left_orthonormal, hfactors.right_orthonormal⟩
      rw [recompose, DenseMatrix.toMatrix_mul, DenseMatrix.toMatrix_mul,
        DenseMatrix.toMatrix_diagonal, DenseMatrix.toMatrix_transpose,
        ← bidiagonal_of_settled hsettled, hfactors.product]
    next hshape => cases hd

theorem decompose_factors_nilpotent :
    (2 ≤ 2 ∧ decompose nilpotent = .ok nilpotentEnd.toSvd) ∧
      nilpotentEnd.toSvd.recompose = nilpotent ∧ (∀ i : Fin 2, 0 ≤ nilpotentEnd.w.get i) ∧
        nilpotentEnd.u.toMatrixᵀ * nilpotentEnd.u.toMatrix = 1 ∧
        nilpotentEnd.v.toMatrixᵀ * nilpotentEnd.v.toMatrix = 1 :=
  ⟨⟨le_rfl, decompose_nilpotent⟩,
    (decompose_factors le_rfl nilpotent).2 nilpotentEnd.toSvd decompose_nilpotent⟩

end Svd
end Relaxation
