import Relaxation.Proofs.Linear.Cancellation

/-!
# Sweeping a block

A sweep turns two columns and then two rows of the bidiagonal matrix at a time. The column rotation
leaves a bulge below the diagonal, and the row rotation moves it beside the superdiagonal of the
next row; past the last row of the block there is none.
-/

namespace Relaxation.Diagonalization

open Matrix

variable {m n : ℕ}

/-- The matrix of a sweep about to treat row `j` of the block that begins in row `l`: `f` stands
above the diagonal entry `x`, and the entry after that is still to be turned by the latest
rotation, which leaves the share `s` of it beside `f`. -/
noncomputable def swept (l : Fin n) (j : ℕ) (f x c s : ℝ) (w e : Vector ℝ n) :
    Matrix (Fin n) (Fin n) ℝ :=
  .of fun p q =>
    if p.val = q.val then (if q.val = j then x else w.get q)
    else if p.val + 1 = q.val then
      (if q = l then 0 else if q.val = j then f else if q.val = j + 1 then c * e.get q else e.get q)
    else if p.val + 2 = q.val ∧ q.val = j + 1 ∧ l.val < j then s * e.get q else 0

/-- The matrix `b` between the rotations of columns and rows `j` and `i`. -/
noncomputable def turned (l j i : Fin n) (top next bulge below z : ℝ)
    (b : Matrix (Fin n) (Fin n) ℝ) : Matrix (Fin n) (Fin n) ℝ :=
  .of fun p q =>
    if q = j then
      (if p = j then top else if p = i then bulge
        else if p.val + 1 = j.val ∧ l.val < j.val then z else 0)
    else if q = i then (if p = j then next else if p = i then below else 0)
    else b p q

section

variable {l j i : Fin n} {f x c s : ℝ} {w e : Vector ℝ n}

theorem swept_column (hl : l ≤ j) (p : Fin n) :
    swept l j f x c s w e p j =
      if p = j then x else if p.val + 1 = j.val ∧ l.val < j.val then f else 0 := by
  simp only [swept, of_apply, Fin.ext_iff]
  split_ifs <;> first | rfl | omega

theorem swept_next (hi : j.val + 1 = i.val) (hl : l ≤ j) (p : Fin n) :
    swept l j f x c s w e p i =
      if p = i then w.get i else if p = j then c * e.get i
      else if p.val + 1 = j.val ∧ l.val < j.val then s * e.get i else 0 := by
  simp only [swept, of_apply, Fin.ext_iff]
  split_ifs <;> first | rfl | omega

theorem swept_turn_columns (hi : j.val + 1 = i.val) (hl : l ≤ j) {c' s' z : ℝ}
    (hrot : Rotates f (s * e.get i) c' s' z) (p q : Fin n) :
    turned l j i (x * c' + c * e.get i * s') (c * e.get i * c' - x * s') (w.get i * s')
        (w.get i * c') z (swept l j f x c s w e) p q =
      if q = j then swept l j f x c s w e p j * c' + swept l j f x c s w e p i * s'
      else if q = i then swept l j f x c s w e p i * c' - swept l j f x c s w e p j * s'
      else swept l j f x c s w e p q := by
  rw [swept_column hl, swept_next hi hl]
  simp only [turned, of_apply, Fin.ext_iff]
  split_ifs <;>
    first
    | rfl
    | omega
    | ring1
    | linear_combination -hrot.length
    | linear_combination -hrot.vanishes

theorem turned_top (top next bulge below z : ℝ) {l j i : Fin n} (hi : j.val + 1 = i.val)
    (hl : l ≤ j) (q : Fin n) :
    turned l j i top next bulge below z (swept l j f x c s w e) j q =
      if q = j then top else if q = i then next else 0 := by
  simp only [turned, swept, of_apply, Fin.ext_iff]
  split_ifs <;> first | rfl | omega

theorem turned_below (top next bulge below z : ℝ) {l j i : Fin n} (hi : j.val + 1 = i.val)
    (hl : l ≤ j) (q : Fin n) :
    turned l j i top next bulge below z (swept l j f x c s w e) i q =
      if q = j then bulge else if q = i then below
      else if q.val = i.val + 1 then e.get q else 0 := by
  simp only [turned, swept, of_apply, Fin.ext_iff]
  split_ifs <;> first | rfl | omega

theorem swept_turn_rows (hi : j.val + 1 = i.val) (hl : l ≤ j) {top next bulge below z c' s' z' : ℝ}
    (hrot : Rotates top bulge c' s' z') (p q : Fin n) :
    swept l i (c' * next + s' * below) (c' * below - s' * next) c' s' (w.set j z' j.isLt)
        (e.set j z j.isLt) p q =
      if p = j then turned l j i top next bulge below z (swept l j f x c s w e) j q * c' +
        turned l j i top next bulge below z (swept l j f x c s w e) i q * s'
      else if p = i then turned l j i top next bulge below z (swept l j f x c s w e) i q * c' -
        turned l j i top next bulge below z (swept l j f x c s w e) j q * s'
      else turned l j i top next bulge below z (swept l j f x c s w e) p q := by
  rw [turned_top top next bulge below z hi hl, turned_below top next bulge below z hi hl]
  rcases eq_or_ne p j with rfl | hpj
  · rw [if_pos rfl]
    simp only [swept, of_apply, Fin.ext_iff, get_set]
    split_ifs <;> first | rfl | omega | ring1 | linear_combination -hrot.length
  rw [if_neg hpj]
  rcases eq_or_ne p i with rfl | hpi
  · rw [if_pos rfl]
    simp only [swept, of_apply, Fin.ext_iff, get_set]
    split_ifs <;> first | rfl | omega | ring1 | linear_combination -hrot.vanishes
  · have hpj : p.val ≠ j.val := fun h => hpj (Fin.ext h)
    have hpi' : p.val ≠ i.val := fun h => hpi (Fin.ext h)
    rw [if_neg hpi]
    simp only [turned, swept, of_apply, Fin.ext_iff, get_set, hpj, hpi',
      if_false]
    split_ifs <;> first | rfl | omega

end

theorem swept_start (l : Fin n) (f : ℝ) {w e : Vector ℝ n} (he : 0 < l.val → e.get l = 0) :
    swept l l f (w.get l) 1 1 w e = bidiagonal w e := by
  ext p q
  have hsplit : p.val + 1 = q.val → q.val = l.val → e.get q = 0 := fun hp hq => by
    obtain rfl : q = l := Fin.ext hq
    exact he (hp ▸ Nat.succ_pos _)
  have hdiagonal : q.val = l.val → w.get q = w.get l := fun hq => by rw [Fin.ext hq]
  simp only [swept, bidiagonal, of_apply, one_mul, Fin.ext_iff]
  split_ifs <;> simp_all

theorem swept_end {l k : Fin n} (hl : l < k) (f x c s : ℝ) {w e : Vector ℝ n}
    (he : ∀ q : Fin n, q.val = k.val + 1 → e.get q = 0) :
    swept l k f x c s w e = bidiagonal (w.set k x k.isLt) ((e.set l 0 l.isLt).set k f k.isLt) := by
  ext p q
  have hq := he q
  simp only [swept, bidiagonal, of_apply, Fin.ext_iff, get_set] at hq ⊢
  split_ifs <;> first | rfl | omega | simp_all

/-- What one row of a sweep does, where its two rotations turn something. -/
theorem sweepRow_eq (r : Sweep m n ℝ) (j i : Fin n) (hne : r.s * r.state.e.get i ≠ 0) :
    ∃ c s z c' s' z',
      Rotates r.f (r.s * r.state.e.get i) c s z ∧
      Rotates (r.x * c + r.c * r.state.e.get i * s) (r.state.w.get i * s) c' s' z' ∧
      (r.state.w.get i ≠ 0 → s' ≠ 0) ∧
      sweepRow r j i =
        { state :=
            { u := r.state.u.rotateColumns j i c' s'
              w := r.state.w.set j z' j.isLt
              v := r.state.v.rotateColumns j i c s
              e := r.state.e.set j z j.isLt }
          f := c' * (r.c * r.state.e.get i * c - r.x * s) + s' * (r.state.w.get i * c)
          x := c' * (r.state.w.get i * c) - s' * (r.c * r.state.e.get i * c - r.x * s)
          c := c'
          s := s' } := by
  set h := r.s * r.state.e.get i with hh
  obtain ⟨z, hz⟩ : ∃ z, Scalar.hypot r.f h = z := ⟨_, rfl⟩
  have hz0 : z ≠ 0 := fun h0 => hne (Scalar.hypot_eq_zero_iff.mp (hz.trans h0)).2
  have hrot : Rotates r.f h (r.f / z) (h / z) z :=
    .of_mul_self (hz ▸ Scalar.hypot_mul_self _ _) hz0
  have hs : h / z ≠ 0 := div_ne_zero hne hz0
  by_cases hz' : Scalar.hypot (r.x * (r.f / z) + r.c * r.state.e.get i * (h / z))
      (r.state.w.get i * (h / z)) = 0
  · -- The row rotation has nothing to turn, and the column rotation stands in for it.
    obtain ⟨htop, hbulge⟩ := Scalar.hypot_eq_zero_iff.mp hz'
    refine ⟨_, _, z, r.f / z, h / z, 0, hrot, ?_, fun _ => hs, ?_⟩
    · rw [htop, hbulge]
      exact .zero hrot.unit
    · unfold sweepRow
      simp only [← hh, hz, hz', Scalar.beq_real_iff.mpr, if_true]
  · refine ⟨_, _, z, _, _, _, hrot, .of_mul_self (Scalar.hypot_mul_self _ _) hz',
      fun hw => mul_ne_zero (mul_ne_zero hw hs) (inv_ne_zero hz'), ?_⟩
    unfold sweepRow
    simp only [← hh, hz, Scalar.beq_real_iff, hz', if_false, Scalar.recip_real]

/-- A sweep of the rows `l` to `k` about to treat row `t`. The sine of the latest rotation only
vanishes with the last diagonal entry, so every column rotation turns something. -/
structure Sweeping (a : Matrix (Fin m) (Fin n) ℝ) (l k : Fin n) (t : ℕ) (r : Sweep m n ℝ) :
    Prop where
  factors : Factorization a r.state.u.toMatrix (swept l t r.f r.x r.c r.s r.state.w r.state.e)
    r.state.v.toMatrix
  diagonal_ne_zero : ∀ q : Fin n, t < q.val → q < k → r.state.w.get q ≠ 0
  superdiagonal_ne_zero : ∀ q : Fin n, t < q.val → q ≤ k → r.state.e.get q ≠ 0
  settled : Settled (k + 1) r.state
  sine_ne_zero : t < k.val → r.s ≠ 0

theorem sweeping_sweepRow {a : Matrix (Fin m) (Fin n) ℝ} {l k j i : Fin n} {r : Sweep m n ℝ}
    (hr : Sweeping a l k j r) (hi : j.val + 1 = i.val) (hl : l ≤ j) (hjk : j < k) :
    Sweeping a l k i (sweepRow r j i) := by
  have hji : j ≠ i := fun h => by simp [h] at hi
  have hik : i ≤ k := Fin.le_def.mpr (hi ▸ Nat.succ_le_of_lt hjk)
  have hne : r.s * r.state.e.get i ≠ 0 :=
    mul_ne_zero (hr.sine_ne_zero hjk) (hr.superdiagonal_ne_zero i (by omega) hik)
  obtain ⟨c, s, z, c', s', z', hcolumns, hrows, hs, heq⟩ := sweepRow_eq r j i hne
  have hafter : ∀ q : Fin n, i.val < q.val → j.val ≠ q.val := fun q hq => by omega
  rw [heq]
  refine ⟨?_, fun q hq hqk => ?_, fun q hq hqk => ?_, ⟨fun q hq _ => ?_, fun q hq => ?_⟩,
    fun hik => hs (hr.diagonal_ne_zero i (by omega) hik)⟩
  · have hturned := hr.factors.rotate_right hji hcolumns.unit (swept_turn_columns hi hl hcolumns)
    exact hturned.rotate_left hji hrows.unit (swept_turn_rows hi hl hrows)
  · simpa [hafter q hq] using hr.diagonal_ne_zero q (by omega) hqk
  · simpa [hafter q hq] using hr.superdiagonal_ne_zero q (by omega) hqk
  · have hjq : j.val ≠ q.val := by omega
    simpa [hjq] using hr.settled.superdiagonal q hq (by omega)
  · have hjq : j.val ≠ q.val := by omega
    simpa [hjq] using hr.settled.nonneg q hq

theorem sweeping_start {a : Matrix (Fin m) (Fin n) ℝ} {l k : Fin n} {d : Diagonalization m n ℝ}
    (hd : Split a l k d) (f : ℝ) : Sweeping a l k l ⟨d, f, d.w.get l, 1, 1⟩ where
  factors := by
    rw [swept_start l f hd.cut]
    exact hd.factors
  diagonal_ne_zero q hq := hd.block.diagonal_ne_zero q (Fin.le_def.mpr hq.le)
  superdiagonal_ne_zero := hd.block.superdiagonal_ne_zero
  settled := hd.settled
  sine_ne_zero _ := one_ne_zero

/-- Rows before the block are passed over. -/
theorem sweeping_succ {a : Matrix (Fin m) (Fin n) ℝ} {l k : Fin n} {j : Fin k.val}
    {r : Sweep m n ℝ} (hr : Sweeping a l k (max l.val j.val) r) :
    Sweeping a l k (max l.val (j.val + 1))
      (if j.val < l.val then r
        else sweepRow r ⟨j.val, j.isLt.trans k.isLt⟩
          ⟨j.val + 1, (Nat.succ_le_of_lt j.isLt).trans_lt k.isLt⟩) := by
  by_cases hskip : j.val < l.val
  · rw [if_pos hskip, max_eq_left hskip]
    rwa [max_eq_left hskip.le] at hr
  · have hlj : l.val ≤ j.val := not_lt.mp hskip
    rw [if_neg hskip, max_eq_right (Nat.le_succ_of_le hlj)]
    rw [max_eq_right hlj] at hr
    exact sweeping_sweepRow (j := ⟨j.val, j.isLt.trans k.isLt⟩)
      (i := ⟨j.val + 1, (Nat.succ_le_of_lt j.isLt).trans_lt k.isLt⟩) hr rfl (Fin.le_def.mpr hlj)
      (Fin.lt_def.mpr j.isLt)

/-- A sweep of a block changes the factors, but not their product. -/
theorem sweep_factors {a : Matrix (Fin m) (Fin n) ℝ} {l k : Fin n} {d : Diagonalization m n ℝ}
    (hd : Split a l k d) (hlk : l ≠ k) :
    Factors a (sweep l k d) ∧ Settled (k + 1) (sweep l k d) := by
  have hlt : l < k := lt_of_le_of_ne hd.block.le hlk
  have hstart := sweeping_start hd (shift d l ⟨k.val - 1, by omega⟩ k)
  have hfinal := foldl_fin_induction (motive := fun i r => Sweeping a l k (max l.val i.val) r)
    (by simpa using hstart) fun _ _ hr => sweeping_succ hr
  rw [Fin.val_last, max_eq_right (Fin.lt_def.mp hlt).le] at hfinal
  have hend := hfinal.factors
  rw [swept_end hlt _ _ _ _ fun q hq => hfinal.settled.superdiagonal q hq.ge (by omega)] at hend
  refine ⟨hend, fun q hq hq0 => ?_, fun q hq => ?_⟩
  · have hlq : l.val ≠ q.val := by omega
    have hkq : k.val ≠ q.val := by omega
    simpa [sweep, hlq, hkq] using hfinal.settled.superdiagonal q hq hq0
  · have hkq : k.val ≠ q.val := by omega
    simpa [sweep, hkq] using hfinal.settled.nonneg q hq

end Relaxation.Diagonalization
