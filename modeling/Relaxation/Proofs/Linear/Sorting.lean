import Mathlib.Data.List.NodupEquivFin
import Relaxation.Proofs.Linear.Svd
import Relaxation.Proofs.Scalar.Total

/-!
# Sorted singular values

Sorting takes the triples of a singular value and its two columns in another order
(`Svd.isReordering_sorted`). The order is stable: values that the total order does not tell apart stay as
they were (`Svd.order_spec`). Equal numbers are not told apart, save that a negative zero goes after a
zero. A product does not depend on the order of the triples, and sorting again changes nothing
(`Svd.sorted_sorted`).
-/

namespace Relaxation

variable {α : Type} [Scalar α] {m n : ℕ}

namespace Svd

/-! ## The order of the values -/

section Order

variable (w : Vector α n)

theorem descending_perm : (descending w).Perm (List.finRange n) := List.mergeSort_perm ..

theorem nodup_descending : (descending w).Nodup :=
  (descending_perm w).nodup_iff.mpr (List.nodup_finRange n)

theorem length_descending : (descending w).length = n := by
  rw [(descending_perm w).length_eq, List.length_finRange]

variable [Scalar.Ordered α]

theorem descending_trans (i j k : Fin n) (hij : (!Scalar.totalLt (w.get i) (w.get j)) = true)
    (hjk : (!Scalar.totalLt (w.get j) (w.get k)) = true) :
    (!Scalar.totalLt (w.get i) (w.get k)) = true := by
  rw [Bool.not_eq_true'] at *
  exact Scalar.totalLt_trans hij hjk

theorem descending_total (i j : Fin n) : (!Scalar.totalLt (w.get i) (w.get j) ||
    !Scalar.totalLt (w.get j) (w.get i)) = true := by
  rw [Bool.or_eq_true, Bool.not_eq_true', Bool.not_eq_true']
  exact Scalar.totalLt_total _ _

/-- Places with values that are not told apart stay in order. -/
theorem filter_descending (tied : Fin n → Bool) (h : ∀ i j, tied i = true → tied j = true →
      Scalar.totalLt (w.get i) (w.get j) = false) :
    (descending w).filter tied = (List.finRange n).filter tied := by
  have hpairwise : ((List.finRange n).filter tied).Pairwise fun i j =>
      (!Scalar.totalLt (w.get i) (w.get j)) = true := by
    refine List.pairwise_of_forall_mem_list fun i hi j hj => ?_
    rw [Bool.not_eq_true']
    exact h i j (List.mem_filter.mp hi).2 (List.mem_filter.mp hj).2
  have hsublist := (List.sublist_mergeSort (descending_trans w) (descending_total w) hpairwise
    List.filter_sublist).filter tied
  rw [List.filter_filter] at hsublist
  simp only [Bool.and_self] at hsublist
  exact (hsublist.eq_of_length ((descending_perm w).filter tied).length_eq.symm).symm

/-- A value stands before another one when it is greater, or neither is and it stood before it. -/
theorem pairwise_descending : (descending w).Pairwise fun i j =>
    Scalar.totalLt (w.get i) (w.get j) = false ∧
      (Scalar.totalLt (w.get j) (w.get i) = false → i < j) := by
  rw [List.pairwise_iff_forall_sublist]
  intro i j hij
  have hle : Scalar.totalLt (w.get i) (w.get j) = false := by
    rw [← Bool.not_eq_true']
    exact List.pairwise_iff_forall_sublist.mp
      (List.pairwise_mergeSort (descending_trans w) (descending_total w) _) hij
  refine ⟨hle, fun hge => ?_⟩
  -- Of the two places alone, which are tied, the sorted list is the one it was made from.
  have hfilter := filter_descending w (fun k => decide (k = i ∨ k = j)) fun k l hk hl => by
    rcases of_decide_eq_true hk with rfl | rfl <;> rcases of_decide_eq_true hl with rfl | rfl
    · exact Scalar.totalLt_self _
    · exact hle
    · exact hge
    · exact Scalar.totalLt_self _
  have hsublist := hij.filter fun k => decide (k = i ∨ k = j)
  rw [hfilter, List.filter_eq_self.mpr (by simp)] at hsublist
  exact List.pairwise_iff_forall_sublist.mp (List.pairwise_lt_finRange n)
    (hsublist.trans List.filter_sublist)

/-- The place from which sorting takes the value for each place. -/
def order : Equiv.Perm (Fin n) :=
  (finCongr (length_descending w).symm).trans <|
    (nodup_descending w).getEquivOfForallMemList _ fun i =>
      (descending_perm w).mem_iff.mpr (List.mem_finRange i)

theorem order_spec {i j : Fin n} (h : i < j) :
    Scalar.totalLt (w.get (order w i)) (w.get (order w j)) = false ∧
      (Scalar.totalLt (w.get (order w j)) (w.get (order w i)) = false → order w i < order w j) :=
  List.pairwise_iff_get.mp (pairwise_descending w) _ _ h

end Order

/-! ## Reorderings -/

/-- The decomposition with its numbers read by `f`. -/
def map {β : Type} (f : α → β) (d : Svd m n α) : Svd m n β :=
  ⟨d.u.map f, Vector.ofFn fun i => f (d.w.get i), d.v.map f⟩

/-- Whether `d'` has in place `i` the value and the two columns that `d` has in place `order i`. -/
structure IsReordering (order : Equiv.Perm (Fin n)) (d d' : Svd m n α) : Prop where
  value (i : Fin n) : d'.w.get i = d.w.get (order i)
  left (i : Fin m) (j : Fin n) : d'.u i j = d.u i (order j)
  right (i j : Fin n) : d'.v i j = d.v i (order j)

theorem isReordering_sorted (d : Svd m n α) : IsReordering (order d.w) d d.sorted where
  value _ := get_ofFn ..
  left _ _ := DenseMatrix.ofFn_apply ..
  right _ _ := DenseMatrix.ofFn_apply ..

namespace IsReordering

variable {d d' : Svd m n α} {order : Equiv.Perm (Fin n)}

omit [Scalar α] in
theorem eq_self (h : IsReordering order d d') (horder : ∀ i, order i = i) : d' = d := by
  have hu : d'.u = d.u := by
    refine DenseMatrix.toMatrix_injective (Matrix.ext fun i j => ?_)
    exact (h.left i j).trans (by rw [horder]; rfl)
  have hw : d'.w = d.w := by
    refine Vector.ext fun i hi => ?_
    exact (h.value ⟨i, hi⟩).trans (by rw [horder]; rfl)
  have hv : d'.v = d.v := by
    refine DenseMatrix.toMatrix_injective (Matrix.ext fun i j => ?_)
    exact (h.right i j).trans (by rw [horder]; rfl)
  obtain ⟨u, w, v⟩ := d
  subst hu hw hv
  rfl

omit [Scalar α] in
theorem map {β : Type} (f : α → β) (h : IsReordering order d d') :
    IsReordering order (d.map f) (d'.map f) where
  value i := by
    change (Vector.ofFn _).get i = (Vector.ofFn _).get (order i)
    rw [get_ofFn, get_ofFn, h.value]
  left i j := by
    change d'.u.map f i j = d.u.map f i (order j)
    rw [DenseMatrix.map_apply, DenseMatrix.map_apply, h.left]
  right i j := by
    change d'.v.map f i j = d.v.map f i (order j)
    rw [DenseMatrix.map_apply, DenseMatrix.map_apply, h.right]

/-- The product is a sum over the triples. -/
theorem recompose_eq {d d' : Svd m n ℝ} (h : IsReordering order d d') :
    d'.recompose = d.recompose := by
  refine DenseMatrix.toMatrix_injective ?_
  rw [toMatrix_recompose, toMatrix_recompose]
  ext i j
  rw [Matrix.mul_apply, Matrix.mul_apply]
  refine (Finset.sum_congr rfl fun k _ => ?_).trans (Equiv.sum_comp order _)
  rw [Matrix.mul_diagonal, Matrix.mul_diagonal, Matrix.transpose_apply, Matrix.transpose_apply,
    DenseMatrix.toMatrix_apply, DenseMatrix.toMatrix_apply, h.value, h.left, h.right]
  rfl

end IsReordering

/-! ## Sorted decompositions -/

theorem descending_sorted [Scalar.Ordered α] (d : Svd m n α) :
    descending d.sorted.w = List.finRange n := by
  refine List.mergeSort_of_pairwise ((List.pairwise_lt_finRange n).imp fun {i j} hij => ?_)
  rw [Bool.not_eq_true', (isReordering_sorted d).value, (isReordering_sorted d).value]
  exact (order_spec d.w hij).1

theorem sorted_sorted [Scalar.Ordered α] (d : Svd m n α) : d.sorted.sorted = d.sorted := by
  refine (isReordering_sorted d.sorted).eq_self fun i => ?_
  change (descending d.sorted.w).get _ = i
  simp [descending_sorted]

/-- Whether `d'` is `d` with the values in descending order, where values that are the `same` keep their
order. -/
structure IsSorting (same : α → α → Prop) (d d' : Svd m n α) : Prop where
  descending {i j : Fin n} : i ≤ j → d'.w.get j ≤ d'.w.get i
  stable : ∃ order, IsReordering order d d' ∧
    ∀ i j, i < j → same (d'.w.get i) (d'.w.get j) → order i < order j

/-- Sorting finite values only takes the triples in another order, the stable one that is descending in
the total order, and so keeps the product, whatever reals the numbers stand for. -/
theorem isSorting_sorted [Scalar.TotallyOrdered α] (d : Svd m n α)
    (h : ∀ i, Scalar.isFinite (d.w.get i) = true) :
    IsSorting Scalar.Alike d d.sorted ∧
      (∀ i j, i < j → Scalar.totalLt (d.sorted.w.get i) (d.sorted.w.get j) = false) ∧
      (∀ f : α → ℝ, (d.sorted.map f).recompose = (d.map f).recompose) ∧
      d.sorted.sorted = d.sorted := by
  have hreorder := isReordering_sorted d
  have hfinite : ∀ i, Scalar.isFinite (d.sorted.w.get i) = true :=
    fun i => hreorder.value i ▸ h _
  have hdescending : ∀ i j, i < j →
      Scalar.totalLt (d.sorted.w.get i) (d.sorted.w.get j) = false := by
    intro i j hij
    rw [hreorder.value, hreorder.value]
    exact (order_spec d.w hij).1
  refine ⟨⟨fun {i j} hij => ?_, order d.w, hreorder, fun i j hij halike => ?_⟩, hdescending,
    fun f => (hreorder.map f).recompose_eq, sorted_sorted d⟩
  · refine Scalar.le_of_not_totalLt (hfinite i) (hfinite j) ?_
    rcases hij.lt_or_eq with hlt | rfl
    · exact hdescending i j hlt
    · exact Scalar.totalLt_self _
  · have htied := halike.not_totalLt (hfinite i) (hfinite j)
    rw [hreorder.value, hreorder.value] at htied
    exact (order_spec d.w hij).2 htied

/-- A decomposition with a negative zero before a zero. -/
def signedZeros : Svd 2 2 Binary64 :=
  ⟨.diagonal #v[1, 1], #v[-0, 0], .diagonal #v[1, 1]⟩

theorem finite_signedZeros (i : Fin 2) : Scalar.isFinite (signedZeros.w.get i) = true := by
  match i with
  | 0 => decide
  | 1 => decide

theorem isSorting_sorted_signedZeros :
    (∀ i, Scalar.isFinite (signedZeros.w.get i) = true) ∧
      IsSorting Scalar.Alike signedZeros signedZeros.sorted ∧
      (∀ i j, i < j →
        Scalar.totalLt (signedZeros.sorted.w.get i) (signedZeros.sorted.w.get j) = false) ∧
      (∀ f : Binary64 → ℝ,
        (signedZeros.sorted.map f).recompose = (signedZeros.map f).recompose) ∧
      signedZeros.sorted.sorted = signedZeros.sorted :=
  ⟨finite_signedZeros, isSorting_sorted signedZeros finite_signedZeros⟩

/-- The two zeros are equal, and yet change places. -/
theorem not_isSorting_beq_signedZeros :
    (∀ i, Scalar.isFinite (signedZeros.w.get i) = true) ∧
      ¬IsSorting (fun a b => (a == b) = true) signedZeros signedZeros.sorted := by
  refine ⟨finite_signedZeros, fun ⟨_, order', hreorder, hstable⟩ => ?_⟩
  have hvalue : ∀ k, signedZeros.sorted.w.get (order'.symm k) = signedZeros.w.get k := fun k => by
    rw [hreorder.value, Equiv.apply_symm_apply]
  -- The places where the two zeros end up stand in one of two orders, and neither will do: the
  -- total order forbids the one, keeping the zeros in order the other.
  rcases lt_trichotomy (order'.symm 0) (order'.symm 1) with hlt | heq | hlt
  · have hdescending := (order_spec signedZeros.w hlt).1
    rw [← (isReordering_sorted signedZeros).value, ← (isReordering_sorted signedZeros).value,
      hvalue, hvalue] at hdescending
    exact absurd hdescending (by decide)
  · exact absurd (order'.symm.injective heq) (by decide)
  · have hkept := hstable _ _ hlt (by rw [hvalue, hvalue]; decide)
    rw [Equiv.apply_symm_apply, Equiv.apply_symm_apply] at hkept
    exact absurd hkept (by decide)

end Svd
end Relaxation
