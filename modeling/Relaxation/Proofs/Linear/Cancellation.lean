import Relaxation.Linear.Svd
import Relaxation.Proofs.Linear.Bidiagonal
import Relaxation.Proofs.Linear.Rotation

/-!
# Splitting off a block

The block that ends in a row begins behind an entry of the superdiagonal that vanishes, or that
rotations make vanish against a diagonal entry that does.
-/

namespace Relaxation.Diagonalization

open Matrix

variable {m n : ℕ}

/-- What the decomposition under way stands for is `a`. -/
def Factors (a : Matrix (Fin m) (Fin n) ℝ) (d : Diagonalization m n ℝ) : Prop :=
  Factorization a d.u.toMatrix (bidiagonal d.w d.e) d.v.toMatrix

/-- The rows `l` to `k` form a block in which only the last diagonal entry may vanish. -/
structure Block (l k : Fin n) (d : Diagonalization m n ℝ) : Prop where
  le : l ≤ k
  diagonal_ne_zero : ∀ j, l ≤ j → j < k → d.w.get j ≠ 0
  superdiagonal_ne_zero : ∀ j, l < j → j ≤ k → d.e.get j ≠ 0

/-- From row `i` on the decomposition is diagonal, with no negative entry. -/
structure Settled (i : ℕ) (d : Diagonalization m n ℝ) : Prop where
  superdiagonal : ∀ j : Fin n, i ≤ j.val → 0 < j.val → d.e.get j = 0
  nonneg : ∀ j : Fin n, i ≤ j.val → 0 ≤ d.w.get j

/-- The reason for a block to begin holds. -/
def Justifies (d : Diagonalization m n ℝ) : BlockStart n → Prop
  | .split l => 0 < l.val → d.e.get l = 0
  | .cancel above l => above.val + 1 = l.val ∧ d.w.get above = 0 ∧ d.e.get l ≠ 0

theorem block_self (k : Fin n) (d : Diagonalization m n ℝ) : Block k k d where
  le := le_rfl
  diagonal_ne_zero _ hj hk := absurd hk hj.not_gt
  superdiagonal_ne_zero _ hj hk := absurd hj hk.not_gt

/-- The search goes up until it finds a superdiagonal entry, or a diagonal one, that counts as zero.
-/
theorem blockStart_spec (size : ℝ) (d : Diagonalization m n ℝ) (k : ℕ) (hk : k < n) :
    Block (blockStart size d k hk).row ⟨k, hk⟩ d ∧ Justifies d (blockStart size d k hk) := by
  induction k with
  | zero => exact ⟨block_self _ d, fun h => absurd h (lt_irrefl 0)⟩
  | succ k ih =>
    rw [blockStart]
    split
    next he =>
      rw [Scalar.negligible_real_iff] at he
      exact ⟨block_self _ d, fun _ => he⟩
    split
    next he hw =>
      rw [Scalar.negligible_real_iff] at he hw
      exact ⟨block_self _ d, rfl, hw, he⟩
    next he hw =>
      rw [Scalar.negligible_real_iff] at he hw
      obtain ⟨hblock, hreason⟩ := ih (Nat.lt_of_succ_lt hk)
      refine ⟨⟨hblock.le.trans (Nat.le_succ k), fun j hl hj => ?_, fun j hl hj => ?_⟩, hreason⟩
      · rcases (Nat.le_of_lt_succ hj : j.val ≤ k).lt_or_eq with hj | rfl
        · exact hblock.diagonal_ne_zero j hl hj
        · exact hw
      · rcases hj.lt_or_eq with hj | rfl
        · exact hblock.superdiagonal_ne_zero j hl (Nat.le_of_lt_succ hj)
        · exact he

/-! ## Cancelling -/

/-- The bidiagonal matrix with the entry above the diagonal in column `t` still to be turned by the
latest rotation: the share `s` of it stands in row `above`. -/
noncomputable def chased (above : Fin n) (t : ℕ) (c s : ℝ) (w e : Vector ℝ n) :
    Matrix (Fin n) (Fin n) ℝ :=
  .of fun p q =>
    (if p.val = q.val then w.get q
      else if p.val + 1 = q.val then (if q.val = t then e.get q * c else e.get q) else 0) +
    if p = above ∧ q.val = t then s * e.get q else 0

/-- Row `above` holds nothing but the entry to be cancelled. -/
structure Cleared (above : Fin n) (t : ℕ) (c : ℝ) (w e : Vector ℝ n) : Prop where
  diagonal : w.get above = 0
  superdiagonal : ∀ q : Fin n, above.val + 1 = q.val →
    (if q.val = t then e.get q * c else e.get q) = 0

theorem chased_above {above : Fin n} {t : ℕ} {c : ℝ} {w e : Vector ℝ n}
    (h : Cleared above t c w e) (s : ℝ) (q : Fin n) :
    chased above t c s w e above q = if q.val = t then s * e.get q else 0 := by
  have hdiagonal : above.val = q.val → w.get q = 0 := fun hq => by
    obtain rfl : above = q := Fin.ext hq
    exact h.diagonal
  have hsuper := h.superdiagonal q
  simp only [chased, of_apply, true_and]
  split_ifs at hsuper ⊢ <;> simp_all

theorem chased_of_ne {above p : Fin n} (hp : p ≠ above) (t : ℕ) (c s : ℝ) (w e : Vector ℝ n)
    (q : Fin n) :
    chased above t c s w e p q =
      if p.val = q.val then w.get q
      else if p.val + 1 = q.val then (if q.val = t then e.get q * c else e.get q) else 0 := by
  simp only [chased, of_apply, hp, false_and, if_false, add_zero]

theorem Cleared.succ {above i : Fin n} (hi : above < i) {c : ℝ} {w e : Vector ℝ n}
    (h : Cleared above i c w e) (c' h' : ℝ) :
    Cleared above (i + 1) c' (w.set i h' i.isLt) (e.set i (e.get i * c) i.isLt) where
  diagonal := by
    have hne : i.val ≠ above.val := (Fin.lt_def.mp hi).ne'
    simpa [hne] using h.diagonal
  superdiagonal q hq := by
    have hq' : q.val ≠ i.val + 1 := by omega
    have hsuper := h.superdiagonal q hq
    rw [if_neg hq', get_set]
    rcases eq_or_ne i q with rfl | hqi
    · rwa [if_pos rfl] at hsuper ⊢
    · have hqi : i.val ≠ q.val := fun h => hqi (Fin.ext h)
      rw [if_neg hqi.symm] at hsuper
      rwa [if_neg hqi]

/-- At first the entry to be chased out is the superdiagonal one. -/
theorem chased_start {above l : Fin n} (hl : above.val + 1 = l.val) (w e : Vector ℝ n) :
    chased above l 0 1 w e = bidiagonal w e := by
  ext p q
  simp only [chased, bidiagonal, of_apply, Fin.ext_iff, mul_zero, one_mul]
  split_ifs <;> first | omega | simp

/-- When the last entry beside it is zero the matrix is bidiagonal again. -/
theorem chased_end (above : Fin n) {t : ℕ} (c s : ℝ) {w e : Vector ℝ n}
    (he : ∀ q : Fin n, q.val = t → e.get q = 0) : chased above t c s w e = bidiagonal w e := by
  ext p q
  have hq := he q
  simp only [chased, bidiagonal, of_apply]
  split_ifs <;> simp_all

/-- The rotation of the rows `above` and `i` moves the entry on to the next column. -/
theorem chased_rotate {above i : Fin n} (hi : above < i) {c s c' s' z : ℝ} {w e : Vector ℝ n}
    (hcleared : Cleared above i c w e) (hrot : Rotates (w.get i) (-(s * e.get i)) c' s' z)
    (p q : Fin n) :
    chased above (i + 1) c' s' (w.set i z i.isLt) (e.set i (e.get i * c) i.isLt) p q =
      if p = above then
        chased above i c s w e above q * c' + chased above i c s w e i q * s'
      else if p = i then chased above i c s w e i q * c' - chased above i c s w e above q * s'
      else chased above i c s w e p q := by
  have hne : i ≠ above := hi.ne'
  rw [chased_above hcleared, chased_of_ne hne]
  rcases eq_or_ne p above with rfl | hp
  · rw [if_pos rfl, chased_above (hcleared.succ hi _ _)]
    rcases eq_or_ne q i with rfl | hqi
    · simp only [(Nat.succ_ne_self _).symm, if_true, if_false]
      linear_combination hrot.vanishes
    · have hqi : q.val ≠ i.val := fun h => hqi (Fin.ext h)
      simp only [hqi, hqi.symm, if_false, zero_mul, zero_add, get_set,
        eq_comm]
      split <;> ring
  rw [if_neg hp, chased_of_ne hp]
  rcases eq_or_ne p i with rfl | hpi
  · rw [if_pos rfl]
    rcases eq_or_ne q p with rfl | hqp
    · simp only [get_set, if_true]
      linear_combination -hrot.length
    · have hqp : q.val ≠ p.val := fun h => hqp (Fin.ext h)
      simp only [hqp, hqp.symm, if_false, zero_mul, sub_zero, get_set,
        eq_comm]
      split <;> ring
  · have hpi' : p.val ≠ i.val := fun h => hpi (Fin.ext h)
    rw [if_neg hpi, chased_of_ne hp]
    simp only [get_set]
    split_ifs <;> first | rfl | omega | exact congrArg (e.get · * c) (Fin.ext ‹_›)

/-- A cancellation about to treat row `t`. Over the reals it does not end before row `k`, for the
entry to be cancelled only vanishes where a block was to begin. -/
structure Chasing (a : Matrix (Fin m) (Fin n) ℝ) (above l k : Fin n) (t : ℕ)
    (x : Cancellation m n ℝ) : Prop where
  unfinished : x.finished = false
  factors : Factorization a x.state.u.toMatrix (chased above t x.c x.s x.state.w x.state.e)
    x.state.v.toMatrix
  block : Block l k x.state
  settled : Settled (k + 1) x.state
  cleared : Cleared above t x.c x.state.w x.state.e
  entry_ne_zero : ∀ q : Fin n, q.val = t → q ≤ k → x.state.e.get q ≠ 0
  sine_ne_zero : x.s ≠ 0
  cosine_ne_zero : l.val < t → t ≤ k.val → x.c ≠ 0

/-- The rotation of one row, where the entry to be cancelled has not vanished. -/
theorem cancelRow_eq (size : ℝ) (above : Fin n) {x : Cancellation m n ℝ} {i : Fin n}
    (hne : x.s * x.state.e.get i ≠ 0) :
    ∃ c s z, Rotates (x.state.w.get i) (-(x.s * x.state.e.get i)) c s z ∧ s ≠ 0 ∧ z ≠ 0 ∧
      (x.state.w.get i ≠ 0 → c ≠ 0) ∧
      cancelRow size above x i =
        { state :=
            { u := x.state.u.rotateColumns above i c s
              w := x.state.w.set i z i.isLt
              v := x.state.v
              e := x.state.e.set i (x.state.e.get i * x.c) i.isLt }
          c, s, finished := false } := by
  have hlarge : ¬Scalar.negligible (x.s * x.state.e.get i) size = true :=
    fun h => hne (Scalar.negligible_real_iff.mp h)
  obtain ⟨z, hz⟩ : ∃ z, Scalar.hypot (x.s * x.state.e.get i) (x.state.w.get i) = z := ⟨_, rfl⟩
  have hz0 : z ≠ 0 := fun h => hne (Scalar.hypot_eq_zero_iff.mp (hz.trans h)).1
  have hsq : z * z = x.state.w.get i * x.state.w.get i +
      -(x.s * x.state.e.get i) * -(x.s * x.state.e.get i) := by
    rw [← hz, Scalar.hypot_mul_self]
    ring
  refine ⟨_, _, z, .of_mul_self hsq hz0, mul_ne_zero (neg_ne_zero.mpr hne) (inv_ne_zero hz0), hz0,
    fun hw => mul_ne_zero hw (inv_ne_zero hz0), ?_⟩
  unfold cancelRow
  simp only [Scalar.recip_real, hz]
  rw [if_neg hlarge]

/-- One rotation moves the entry one column further. -/
theorem chasing_cancelRow {a : Matrix (Fin m) (Fin n) ℝ} (size : ℝ) {above l k i : Fin n}
    {x : Cancellation m n ℝ} (hx : Chasing a above l k i x) (hl : above.val + 1 = l.val)
    (hli : l ≤ i) (hik : i ≤ k) : Chasing a above l k (i + 1) (cancelRow size above x i) := by
  have hne : x.s * x.state.e.get i ≠ 0 :=
    mul_ne_zero hx.sine_ne_zero (hx.entry_ne_zero i rfl hik)
  have hai : above < i := Fin.lt_def.mpr (by omega)
  obtain ⟨c, s, z, hrot, hs, hz, hc, heq⟩ := cancelRow_eq size above hne
  rw [heq]
  refine ⟨rfl, ?_, ?_, ?_, hx.cleared.succ hai _ _, ?_, hs,
    fun _ hik => hc (hx.block.diagonal_ne_zero i hli hik)⟩
  · exact hx.factors.rotate_left hai.ne hrot.unit (chased_rotate hai hx.cleared hrot)
  · refine ⟨hx.block.le, fun j hlj hjk => ?_, fun j hlj hjk => ?_⟩
    · rcases eq_or_ne j i with rfl | hji
      · simpa using hz
      · have hji : i.val ≠ j.val := fun h => hji (Fin.ext h.symm)
        simpa [hji] using hx.block.diagonal_ne_zero j hlj hjk
    · rcases eq_or_ne j i with rfl | hji
      · simpa using ⟨hx.entry_ne_zero j rfl hjk, hx.cosine_ne_zero hlj hjk⟩
      · have hji : i.val ≠ j.val := fun h => hji (Fin.ext h.symm)
        simpa [hji] using hx.block.superdiagonal_ne_zero j hlj hjk
  · refine ⟨fun j hkj hj => ?_, fun j hkj => ?_⟩
    · have hji : i.val ≠ j.val := by omega
      simpa [hji] using hx.settled.superdiagonal j hkj hj
    · have hji : i.val ≠ j.val := by omega
      simpa [hji] using hx.settled.nonneg j hkj
  · intro q hq hqk
    have hqi : i.val ≠ q.val := by omega
    have hlq : l < q := by omega
    simpa [hqi] using hx.block.superdiagonal_ne_zero q hlq hqk

theorem chasing_start {a : Matrix (Fin m) (Fin n) ℝ} {above l k : Fin n}
    {d : Diagonalization m n ℝ} (hd : Factors a d) (hblock : Block l k d)
    (hsettled : Settled (k + 1) d) (hl : above.val + 1 = l.val) (hw : d.w.get above = 0)
    (he : d.e.get l ≠ 0) : Chasing a above l k l ⟨d, 0, 1, false⟩ where
  unfinished := rfl
  factors := by
    rw [chased_start hl]
    exact hd
  block := hblock
  settled := hsettled
  cleared := by
    refine ⟨hw, fun q hq => ?_⟩
    rw [if_pos (hq.symm.trans hl), mul_zero]
  entry_ne_zero q hq _ := by
    obtain rfl : q = l := Fin.ext hq
    exact he
  sine_ne_zero := one_ne_zero
  cosine_ne_zero h := absurd h (lt_irrefl _)

/-- Rows outside the block are passed over: the row to be treated next lies within `l` and
`k + 1`. -/
theorem chasing_succ {a : Matrix (Fin m) (Fin n) ℝ} (size : ℝ) {above l k i : Fin n}
    {x : Cancellation m n ℝ} (hx : Chasing a above l k (max l.val (min i.val (k.val + 1))) x)
    (hl : above.val + 1 = l.val) :
    Chasing a above l k (max l.val (min (i.val + 1) (k.val + 1)))
      (if x.finished || i < l || k < i then x else cancelRow size above x i) := by
  by_cases hskip : i < l ∨ k < i
  · have hrow : max l.val (min (i.val + 1) (k.val + 1)) = max l.val (min i.val (k.val + 1)) := by
      omega
    rw [if_pos (by simpa [hx.unfinished] using hskip), hrow]
    exact hx
  · have hrow : max l.val (min i.val (k.val + 1)) = i.val := by omega
    have hrow' : max l.val (min (i.val + 1) (k.val + 1)) = i.val + 1 := by omega
    rw [hrow] at hx
    rw [if_neg (by simpa [hx.unfinished] using hskip), hrow']
    obtain ⟨hli, hik⟩ := not_or.mp hskip
    exact chasing_cancelRow size hx hl (not_lt.mp hli) (not_lt.mp hik)

/-- A decomposition of `a`, settled behind row `k`, whose rows `l` to `k` stand alone. -/
structure Split (a : Matrix (Fin m) (Fin n) ℝ) (l k : Fin n) (d : Diagonalization m n ℝ) :
    Prop where
  factors : Factors a d
  block : Block l k d
  settled : Settled (k + 1) d
  cut : 0 < l.val → d.e.get l = 0

/-- By induction over the rows of the block. -/
theorem split_cancel {a : Matrix (Fin m) (Fin n) ℝ} (size : ℝ) {above l k : Fin n}
    {d : Diagonalization m n ℝ} (hstart : Chasing a above l k l ⟨d, 0, 1, false⟩)
    (hl : above.val + 1 = l.val) : Split a l k (cancel size above l k d) := by
  have hlk : l.val ≤ k.val := hstart.block.le
  have hfinal := foldl_fin_induction
    (motive := fun i x => Chasing a above l k (max l.val (min i.val (k.val + 1))) x)
    (by simpa using hstart) fun _ _ hx => chasing_succ size hx hl
  rw [Fin.val_last, min_eq_right (Nat.succ_le_of_lt k.isLt), max_eq_right (by omega)] at hfinal
  refine ⟨?_, hfinal.block, hfinal.settled, fun _ => ?_⟩
  · have hend := hfinal.factors
    rwa [chased_end _ _ _ fun q hq => hfinal.settled.superdiagonal q hq.ge (by omega)] at hend
  · have hcut := hfinal.cleared.superdiagonal l hl
    rwa [if_neg (by omega)] at hcut

/-- Whichever way the search ends, a block is split off. -/
theorem split_deflate {a : Matrix (Fin m) (Fin n) ℝ} (size : ℝ) {k : Fin n}
    {d : Diagonalization m n ℝ} (hd : Factors a d) (hsettled : Settled (k + 1) d) :
    Split a (deflate size k d).1 k (deflate size k d).2 := by
  obtain ⟨hblock, hreason⟩ := blockStart_spec size d k.val k.isLt
  unfold deflate
  split
  next l hstart =>
    rw [hstart] at hblock hreason
    exact ⟨hd, hblock, hsettled, hreason⟩
  next above l hstart =>
    rw [hstart] at hblock hreason
    obtain ⟨hl, hw, he⟩ := hreason
    exact split_cancel size (chasing_start hd hblock hsettled hl hw he) hl

end Relaxation.Diagonalization
