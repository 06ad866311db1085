import Relaxation.Proofs.Domain.Basic
import Relaxation.Proofs.Linear.Accumulation

/-!
# The reduction to bidiagonal form inside the domain

A column or row is only reflected if it has an entry other than zero. Then the sum of squares of the
scaled entries is positive, and the first of them is reflected away from itself, so the divisor of the
reflection is negative (`Domain.reflection_divisor_ne_zero`). The accumulation divides by an entry of
the reduced matrix besides, which does not vanish where the entry of the diagonal or superdiagonal does
not.
-/

namespace Relaxation.Domain

noncomputable section

/-! ## Vectors and folds -/

/-- A vector of entries each of which may have no value. -/
def ofFn? {n : ℕ} (f : Fin n → Option ℝ) : Option (Vector ℝ n) :=
  if h : ∀ i, (f i).isSome then some (Vector.ofFn fun i => (f i).get (h i)) else none

theorem ofFn?_eq_some {n : ℕ} {f : Fin n → Option ℝ} {g : Fin n → ℝ} (h : ∀ i, f i = some (g i)) :
    ofFn? f = some (Vector.ofFn g) := by
  obtain rfl : f = fun i => some (g i) := funext h
  exact dif_pos fun _ => rfl

section Folds

variable {β : Type} {n : ℕ}

/-- A fold has a value if each step has one where what holds at first and after each step holds. -/
theorem foldlM_fin_eq_some {motive : Fin (n + 1) → β → Prop} {f? : β → Fin n → Option β}
    {f : β → Fin n → β} {x : β} (zero : motive 0 x)
    (succ : ∀ i y, motive i.castSucc y → f? y i = some (f y i) ∧ motive i.succ (f y i)) :
    Fin.foldlM n f? x = some (Fin.foldl n f x) := by
  induction n generalizing x with
  | zero => rw [Fin.foldlM_zero, Fin.foldl_zero]; rfl
  | succ n ih =>
    obtain ⟨hstep, hnext⟩ := succ 0 x zero
    rw [Fin.foldlM_succ, Fin.foldl_succ]
    dsimp only
    rw [hstep]
    exact ih (motive := fun i => motive i.succ) hnext fun i y hy => succ i.succ y hy

/-- The same of a fold from the last index to the first. -/
theorem foldrM_fin_eq_some {motive : Fin (n + 1) → β → Prop} {f? : Fin n → β → Option β}
    {f : Fin n → β → β} {x : β} (last : motive (Fin.last n) x)
    (pred : ∀ i y, motive i.succ y → f? i y = some (f i y) ∧ motive i.castSucc (f i y)) :
    Fin.foldrM n f? x = some (Fin.foldr n f x) := by
  induction n generalizing x with
  | zero => rw [Fin.foldrM_zero, Fin.foldr_zero]; rfl
  | succ n ih =>
    obtain ⟨hstep, hnext⟩ := pred (Fin.last n) x last
    rw [Fin.foldrM_succ_last, Fin.foldr_succ_last]
    dsimp only
    rw [hstep]
    exact ih (motive := fun i => motive i.castSucc) hnext fun i y hy => pred i.castSucc y hy

end Folds

/-! ## Reflections -/

open DenseMatrix Reduction

variable {m n : ℕ}

/-- The scaled entries do not all vanish. -/
theorem sumFrom_scaled_pos {start : ℕ} {y : Fin n → ℝ} {scale : ℝ}
    (hscale : scale = sumFrom start fun k => Scalar.abs (y k)) (hne : scale ≠ 0) :
    0 < sumFrom start fun k => y k / scale * (y k / scale) := by
  rw [sumFrom_real] at hscale ⊢
  exact sum_scaled_pos hne (hscale ▸ hne)

/-- The divisor of a reflection is negative. -/
theorem reflection_divisor_ne_zero {s : ℝ} (hs : 0 < s) (f : ℝ) :
    f * -Scalar.withSignOf (Scalar.sqrt s) f - s ≠ 0 := by
  have hsign := mul_sign_nonneg (Scalar.sqrt s) f
  rw [mul_neg]
  linarith

/-- The entries scaled, with the entry that those from `start` on are reflected to, in place `t`, and
the divisor of the reflection. -/
def reflection? (start : ℕ) (t : Fin n) (y : Fin n → ℝ) (scale : ℝ) :
    Option (Vector ℝ n × ℝ × ℝ) := do
  let x ← ofFn? fun k => div? (y k) scale
  let s := sumFrom start fun k : Fin n => x.get k * x.get k
  let g := -Scalar.withSignOf (← sqrt? s) (x.get t)
  return (x, g, x.get t * g - s)

theorem reflection?_eq_some {start : ℕ} {y : Fin n → ℝ} {scale : ℝ} (t : Fin n)
    (hscale : scale = sumFrom start fun k => Scalar.abs (y k)) (hne : scale ≠ 0) :
    ∃ x g divisor, reflection? start t y scale = some (x, g, divisor) ∧
      x = (Vector.ofFn fun k => y k / scale) ∧
      g = -Scalar.withSignOf (Scalar.sqrt (sumFrom start fun k : Fin n => x.get k * x.get k)) (x.get t) ∧
      divisor = x.get t * g - (sumFrom start fun k : Fin n => x.get k * x.get k) ∧ divisor ≠ 0 := by
  obtain ⟨x, hx⟩ : ∃ x : Vector ℝ n, x = Vector.ofFn fun k => y k / scale := ⟨_, rfl⟩
  have hs : 0 < sumFrom start fun k : Fin n => x.get k * x.get k := by
    simp only [hx, get_ofFn]
    exact sumFrom_scaled_pos hscale hne
  refine ⟨x, _, _, ?_, hx, rfl, rfl, reflection_divisor_ne_zero hs _⟩
  rw [reflection?, ofFn?_eq_some fun k => div?_eq_some hne (y k), ← hx, Option.bind_eq_bind,
    Option.bind_some]
  dsimp only
  rw [sqrt?_eq_some hs.le]
  rfl

/-- The corrections of the columns or rows that come after, with a common divisor. -/
theorem ofFn?_ite_div_eq_some {divisor : ℝ} (h : divisor ≠ 0) (later : Fin n → Prop)
    [DecidablePred later] (g : Fin n → ℝ) :
    (ofFn? fun j => if later j then div? (g j) divisor else some 0) =
      some (Vector.ofFn fun j => if later j then g j / divisor else 0) := by
  refine ofFn?_eq_some fun j => ?_
  split
  · exact div?_eq_some h _
  · rfl

/-- The column reflected onto its first entry, with the columns after it. -/
def reflectColumn? (h : n ≤ m) (a : DenseMatrix m n ℝ) (i : Fin n) :
    Option (DenseMatrix m n ℝ × ℝ) :=
  let top : Fin m := i.castLE h
  let scale := sumFrom i.val fun k => Scalar.abs (a k i)
  if scale == 0 then some (a, 0)
  else do
    let (x, g, divisor) ← reflection? i.val top (fun k => a k i) scale
    let v : Vector ℝ m := Vector.ofFn fun k => if k = top then x.get top - g else x.get k
    let share ← ofFn? fun j : Fin n =>
      if i < j then div? (sumFrom i.val fun k : Fin m => v.get k * a k j) divisor else some 0
    let reflected := ofFn fun k j =>
      if k < top then a k j
      else if j = i then v.get k * scale
      else if i < j then a k j + share.get j * v.get k
      else a k j
    return (reflected, scale * g)

/-- A column without entries is passed over; any other one has a divisor. -/
theorem reflectColumn?_eq_some (h : n ≤ m) (a : DenseMatrix m n ℝ) (i : Fin n) :
    reflectColumn? h a i = some (reflectColumn h a i) := by
  unfold reflectColumn? reflectColumn
  dsimp only
  split
  case isTrue => rfl
  case isFalse hscale =>
    rw [Scalar.beq_real_iff] at hscale
    obtain ⟨x, _, _, hreflection, hx, rfl, rfl, hne⟩ :=
      reflection?_eq_some (y := fun k => a.rows[k][i]) (i.castLE h) rfl hscale
    rw [hreflection, Option.bind_eq_bind, Option.bind_some, ← hx]
    dsimp only
    rw [ofFn?_ite_div_eq_some hne]
    rfl

/-- The row reflected onto the entry above the diagonal, with the rows after it. -/
def reflectRow? (h : n ≤ m) (a : DenseMatrix m n ℝ) (i l : Fin n) :
    Option (DenseMatrix m n ℝ × ℝ) :=
  let row : Fin m := i.castLE h
  let scale := sumFrom l.val fun k => Scalar.abs (a row k)
  if scale == 0 then some (a, 0)
  else do
    let (x, g, divisor) ← reflection? l.val l (fun k => a row k) scale
    let v : Vector ℝ n := Vector.ofFn fun k => if k = l then x.get l - g else x.get k
    let quotient ← ofFn? fun k : Fin n => div? (v.get k) divisor
    let share : Vector ℝ m := Vector.ofFn fun j =>
      if row < j then sumFrom l.val (fun k : Fin n => a j k * v.get k) else 0
    let reflected := ofFn fun j k =>
      if k < l then a j k
      else if j = row then v.get k * scale
      else if row < j then a j k + share.get j * quotient.get k
      else a j k
    return (reflected, scale * g)

theorem reflectRow?_eq_some (h : n ≤ m) (a : DenseMatrix m n ℝ) (i l : Fin n) :
    reflectRow? h a i l = some (reflectRow h a i l) := by
  unfold reflectRow? reflectRow
  dsimp only
  split
  case isTrue => rfl
  case isFalse hscale =>
    rw [Scalar.beq_real_iff] at hscale
    obtain ⟨x, _, _, hreflection, hx, rfl, rfl, hne⟩ :=
      reflection?_eq_some (y := fun k => a.rows[i.castLE h][k]) l rfl hscale
    rw [hreflection, Option.bind_eq_bind, Option.bind_some, ← hx]
    dsimp only
    rw [ofFn?_eq_some fun k => div?_eq_some hne _]
    simp only [Option.bind_eq_bind, Option.bind_some, getElem_ofFn, get_ofFn]
    rfl

/-- One column and the row beside it, with the size of the entries so far. -/
def reductionStep? (h : n ≤ m) (r : Reduction m n ℝ) (i : Fin n) : Option (Reduction m n ℝ) := do
  let (a, d) ← reflectColumn? h r.matrix i
  let size := Scalar.max r.size (Scalar.abs d + Scalar.abs (r.superdiagonal.get i))
  if hl : i.val + 1 < n then
    let l : Fin n := ⟨i.val + 1, hl⟩
    let (a, e) ← reflectRow? h a i l
    return ⟨a, r.diagonal.set i d i.isLt, r.superdiagonal.set l e l.isLt, size⟩
  else return ⟨a, r.diagonal.set i d i.isLt, r.superdiagonal, size⟩

theorem reductionStep?_eq_some (h : n ≤ m) (r : Reduction m n ℝ) (i : Fin n) :
    reductionStep? h r i = some (step h r i) := by
  simp only [reductionStep?, reflectColumn?_eq_some, reflectRow?_eq_some, Option.bind_eq_bind,
    Option.bind_some, step]
  split <;> rfl

/-- The bidiagonal form of `a`. -/
def reduce? (h : n ≤ m) (a : DenseMatrix m n ℝ) : Option (Reduction m n ℝ) :=
  Fin.foldlM n (reductionStep? h) ⟨a, Vector.replicate n 0, Vector.replicate n 0, 0⟩

theorem reduce?_eq_some (h : n ≤ m) (a : DenseMatrix m n ℝ) :
    reduce? h a = some (ofMatrix h a) :=
  foldlM_fin_eq_some (motive := fun _ _ => True) trivial fun i r _ =>
    ⟨reductionStep?_eq_some h r i, trivial⟩

/-! ## Accumulation -/

/-- The vector stored at row `i` begins with an entry other than zero if there is a reflection. -/
def RowStored (h : n ≤ m) (r : Reduction m n ℝ) (i : Fin n) : Prop :=
  ∀ hl : i.val + 1 < n, r.superdiagonal[i.val + 1] ≠ 0 →
    r.matrix (i.castLE h) ⟨i.val + 1, hl⟩ ≠ 0

theorem rowStored_step (h : n ≤ m) (r : Reduction m n ℝ) (i : Fin n) :
    RowStored h (step h r i) i := by
  intro hl hne
  rw [superdiagonal_step h r hl] at hne
  rw [step_matrix h r hl]
  exact (reflects_reflectRow h _ i ⟨i.val + 1, hl⟩).top_ne_zero hne

theorem RowStored.step_of_lt {h : n ≤ m} {r : Reduction m n ℝ} {i j : Fin n}
    (hj : RowStored h r j) (hji : j < i) : RowStored h (step h r i) j := by
  intro hl hne
  have hlater : j.val + 1 ≠ i.val + 1 := by simpa using (Fin.lt_def.mp hji).ne
  rw [superdiagonal_step_of_ne h r hl hlater] at hne
  have hsame := step_apply_of_lt h r i (k := j.castLE h) (j := ⟨j.val + 1, hl⟩) (.inl hji)
  rw [toMatrix_apply, toMatrix_apply] at hsame
  rw [hsame]
  exact hj hl hne

/-- The steps after a row leave its vector as it is. -/
theorem rowStored_ofMatrix (h : n ≤ m) (a : DenseMatrix m n ℝ) (i : Fin n) :
    RowStored h (ofMatrix h a) i := by
  have hfinal := foldl_fin_induction (f := step h)
    (motive := fun i r => ∀ j : Fin n, j.castSucc < i → RowStored h r j)
    (x := ⟨a, Vector.replicate n 0, Vector.replicate n 0, 0⟩)
    (fun j hj => absurd hj (Fin.not_lt_zero _)) fun i r hr j hj => ?_
  · exact hfinal i (Fin.castSucc_lt_last i)
  rcases (Fin.castSucc_lt_succ_iff.mp hj).lt_or_eq with hj | rfl
  · exact (hr j hj).step_of_lt hj
  · exact rowStored_step h r j

/-- One reflection of the rows taken up into the right factor. -/
def accumulateRightStep? (h : n ≤ m) (r : Reduction m n ℝ) (i l : Fin n)
    (v : DenseMatrix n n ℝ) : Option (DenseMatrix n n ℝ) :=
  let row : Fin m := i.castLE h
  let g := r.superdiagonal.get l
  if g == 0 then some (bordered i v)
  else do
    let column ← ofFn? fun k : Fin n => do div? (← div? (r.matrix row k) (r.matrix row l)) g
    let share : Vector ℝ n := Vector.ofFn fun j =>
      sumFrom l.val fun k : Fin n => r.matrix row k * v k j
    return bordered i
      (ofFn fun k j => if i < k ∧ i < j then v k j + share.get j * column.get k else v k j)

theorem accumulateRightStep?_eq_some {h : n ≤ m} {r : Reduction m n ℝ} {i : Fin n}
    (hr : RowStored h r i) (hl : i.val + 1 < n) (v : DenseMatrix n n ℝ) :
    accumulateRightStep? h r i ⟨i.val + 1, hl⟩ v =
      some (accumulateRightStep h r i ⟨i.val + 1, hl⟩ v) := by
  simp only [accumulateRightStep?, accumulateRightStep, getElem_eq_get r.superdiagonal]
  split
  case isTrue => rfl
  case isFalse hg =>
    rw [Scalar.beq_real_iff] at hg
    rw [ofFn?_eq_some fun k => ?_]
    · rfl
    · rw [div?_eq_some (hr hl hg), Option.bind_eq_bind, Option.bind_some, div?_eq_some hg]

/-- The right factor, from the last reflection of the rows to the first. -/
def accumulateRight? (h : n ≤ m) (r : Reduction m n ℝ) : Option (DenseMatrix n n ℝ) :=
  Fin.foldrM n
    (fun i v =>
      if hl : i.val + 1 < n then accumulateRightStep? h r i ⟨i.val + 1, hl⟩ v
      else some (bordered i v))
    0

theorem accumulateRight?_eq_some {h : n ≤ m} {r : Reduction m n ℝ} (hr : ∀ i, RowStored h r i) :
    accumulateRight? h r = some (accumulateRight h r) := by
  refine foldrM_fin_eq_some (motive := fun _ _ => True) trivial fun i v _ => ⟨?_, trivial⟩
  split
  case isTrue hl => exact accumulateRightStep?_eq_some (hr i) hl v
  case isFalse => rfl

/-- One reflection of the columns taken up into the left factor. -/
def accumulateLeftStep? (h : n ≤ m) (diagonal : Vector ℝ n) (i : Fin n)
    (a : DenseMatrix m n ℝ) : Option (DenseMatrix m n ℝ) :=
  let top : Fin m := i.castLE h
  let a := ofFn fun k j => if k = top ∧ i < j then 0 else a k j
  if diagonal.get i == 0 then
    some (ofFn fun k j => if j = i ∧ top ≤ k then (if k = top then 0 + 1 else 0) else a k j)
  else do
    let inverse ← recip? (diagonal.get i)
    let share ← ofFn? fun j : Fin n => do
      return (← div? (sumFrom (i.val + 1) fun k : Fin m => a k i * a k j) (a top i)) * inverse
    return ofFn fun k j =>
      if k < top ∨ j < i then a k j
      else if i < j then a k j + share.get j * a k i
      else if k = top then a k i * inverse + 1
      else a k i * inverse

theorem accumulateLeftStep?_eq_some (h : n ≤ m) {diagonal : Vector ℝ n} {i : Fin n}
    {a : DenseMatrix m n ℝ} (ha : diagonal.get i ≠ 0 → a (i.castLE h) i ≠ 0) :
    accumulateLeftStep? h diagonal i a = some (accumulateLeftStep h diagonal i a) := by
  simp only [accumulateLeftStep?, accumulateLeftStep, getElem_eq_get diagonal]
  split
  case isTrue => rfl
  case isFalse hd =>
    rw [Scalar.beq_real_iff] at hd
    have htop : (ofFn fun k j => if k = i.castLE h ∧ i < j then 0 else a k j) (i.castLE h) i ≠ 0 := by
      rw [ofFn_apply, if_neg fun hlt => lt_irrefl i hlt.2]
      exact ha hd
    rw [recip?_eq_some hd, Option.bind_eq_bind, Option.bind_some, ofFn?_eq_some fun j => ?_]
    · rfl
    · rw [div?_eq_some htop]
      rfl

/-- The left factor, from the last reflection of the columns to the first. -/
def accumulateLeft? (h : n ≤ m) (r : Reduction m n ℝ) : Option (DenseMatrix m n ℝ) :=
  Fin.foldrM n (accumulateLeftStep? h r.diagonal) r.matrix

theorem accumulateLeft?_eq_some {h : n ≤ m} {r : Reduction m n ℝ} (hr : ∀ i, Stored h r i) :
    accumulateLeft? h r = some (accumulateLeft h r) := by
  -- The columns before the one accumulated still hold the vectors of their reflections.
  refine foldrM_fin_eq_some (motive := fun i a => ∀ p (q : Fin n), q.val < i.val →
    a.toMatrix p q = r.matrix.toMatrix p q) (fun _ _ _ => rfl) fun i a ha => ⟨?_, fun p q hq => ?_⟩
  · refine accumulateLeftStep?_eq_some h fun hd => ?_
    have htop := (hr i).top_ne_zero hd
    rwa [← ha _ i (Nat.lt_succ_self _)] at htop
  · rw [accumulateLeftStep_apply_of_lt h r.diagonal i a (.inr hq)]
    exact ha p q (Nat.lt_succ_of_lt hq)

end

end Relaxation.Domain
