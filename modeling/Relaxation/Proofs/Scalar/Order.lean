import Mathlib.Order.Defs.LinearOrder
import Relaxation.Proofs.Scalar.Real
import Relaxation.Scalar.Binary64

/-!
# Scalars in order

What comparisons mean, for rounded numbers as well as for exact ones: of two finite numbers one is at most
the other, and the total order is that of a rank. A number that is not one is neither above nor below
anything, so both laws are needed to read a check that passed. Of several items with such keys the first
of the least ones is picked (`Scalar.exists_firstMinBy_eq`).
-/

namespace Relaxation

/-- A scalar whose finite numbers are in order, with a total order on all its values. -/
class Scalar.Ordered (α : Type) [Scalar α] : Prop where
  isFinite_zero : isFinite (0 : α) = true
  le_of_not_lt {a b : α} : isFinite a = true → isFinite b = true → ¬a < b → b ≤ a
  exists_rank : ∃ (L : Type) (_ : LinearOrder L) (rank : α → L),
    ∀ a b, totalLt a b = true ↔ rank a < rank b

instance : Scalar.Ordered ℝ where
  isFinite_zero := rfl
  le_of_not_lt _ _ h := not_lt.mp h
  exists_rank := ⟨ℝ, inferInstance, id, fun _ _ => Scalar.totalLt_real_iff⟩

namespace Binary64

open Float.Model UnpackedFloat

/-- Finite numbers compare, and the other way round they compare the other way. -/
theorem exists_compare_eq {a b : UnpackedFloat} (ha : a.isFinite = true) (hb : b.isFinite = true) :
    ∃ o, a.compare b = some o ∧ b.compare a = some o.swap := by
  have hswap (m n : Nat) (e f : Int) :
      (compare f e).then (compare n m) = ((compare e f).then (compare m n)).swap := by
    rw [Ordering.swap_then, ← Std.OrientedCmp.eq_swap, ← Std.OrientedCmp.eq_swap]
  cases a with
  | notANumber | infinity => cases ha
  | zero s =>
    cases b with
    | notANumber | infinity => cases hb
    | zero t => exact ⟨.eq, rfl, rfl⟩
    | finite t n f hn => cases t <;> exact ⟨_, rfl, rfl⟩
  | finite s m e hm =>
    cases b with
    | notANumber | infinity => cases hb
    | zero t => cases s <;> exact ⟨_, rfl, rfl⟩
    | finite t n f hn =>
      cases s <;> cases t
      case negative.positive | positive.negative => exact ⟨_, rfl, rfl⟩
      case positive.positive => exact ⟨_, rfl, congrArg some (hswap m n e f)⟩
      case negative.negative =>
        exact ⟨_, rfl, congrArg (fun o => some (Ordering.swap o)) (hswap m n e f)⟩

/-- What `a` is to `b`; nothing when one of them is not a number. -/
def compare? (a b : Binary64) : Option Ordering :=
  a.float.toModel.unpack.compare b.float.toModel.unpack

theorem lt_iff {a b : Binary64} : a < b ↔ a.compare? b = some .lt := by
  refine decide_eq_true_iff.trans ?_
  change (a.compare? b == some .lt) = true ↔ _
  rw [beq_iff_eq]

theorem le_iff {a b : Binary64} : a ≤ b ↔ ∃ o, a.compare? b = some o ∧ o.isLE = true := by
  refine decide_eq_true_iff.trans ?_
  change (a.compare? b).any (·.isLE) = true ↔ _
  rw [Option.any_eq_true]

/-- A number between finite ones is finite. -/
theorem isFinite_of_le_of_le {x lo hi : Binary64} (hlo : Scalar.isFinite lo = true)
    (hhi : Scalar.isFinite hi = true) (h : lo ≤ x) (h' : x ≤ hi) : Scalar.isFinite x = true := by
  obtain ⟨o, hcompare, ho⟩ := le_iff.mp h
  obtain ⟨o', hcompare', ho'⟩ := le_iff.mp h'
  change lo.float.toModel.unpack.isFinite = true at hlo
  change hi.float.toModel.unpack.isFinite = true at hhi
  change x.float.toModel.unpack.isFinite = true
  unfold compare? at hcompare hcompare'
  cases hx : x.float.toModel.unpack with
  | zero | finite => rfl
  | notANumber =>
    rw [hx] at hcompare'
    cases hcompare'
  | infinity s =>
    rw [hx] at hcompare hcompare'
    cases s with
    | positive =>
      cases hhi' : hi.float.toModel.unpack with
      | notANumber | infinity => rw [hhi'] at hhi; cases hhi
      | zero | finite => rw [hhi'] at hcompare'; cases hcompare'; cases ho'
    | negative =>
      cases hlo' : lo.float.toModel.unpack with
      | notANumber | infinity => rw [hlo'] at hlo; cases hlo
      | zero | finite => rw [hlo'] at hcompare; cases hcompare; cases ho

instance : Scalar.Ordered Binary64 where
  isFinite_zero := by decide
  le_of_not_lt {a b} ha hb h := by
    obtain ⟨o, hab, hba⟩ := exists_compare_eq ha hb
    rw [lt_iff, compare?, hab] at h
    refine le_iff.mpr ⟨o.swap, hba, ?_⟩
    cases o with
    | lt => exact absurd rfl h
    | eq => rfl
    | gt => rfl
  exists_rank := ⟨Int, inferInstance, totalRank, fun _ _ => decide_eq_true_iff⟩

end Binary64

/-- The pick is least, and strictly less than all before it. -/
theorem Scalar.exists_firstMinBy_eq {α β L : Type} [Scalar α] [LinearOrder L] {rank : α → L}
    (hrank : ∀ a b : α, totalLt a b = true ↔ rank a < rank b) (key : β → α) {bs : List β}
    (h : bs ≠ []) :
    ∃ (i : Nat) (b : β), bs[i]? = some b ∧ firstMinBy key bs = some b ∧
      (∀ j < i, ∀ x, bs[j]? = some x → rank (key b) < rank (key x)) ∧
      ∀ (j : Nat) x, bs[j]? = some x → rank (key b) ≤ rank (key x) := by
  obtain ⟨x, xs, rfl⟩ := List.exists_cons_of_ne_nil h
  simp only [firstMinBy, Option.some.injEq]
  clear h
  induction xs generalizing x with
  | nil =>
    refine ⟨0, x, rfl, rfl, nofun, fun j y hy => ?_⟩
    obtain rfl := List.mem_singleton.mp (List.mem_of_getElem? hy)
    exact le_rfl
  | cons y ys ih =>
    rw [List.foldl_cons]
    by_cases hlt : totalLt (key y) (key x) = true
    · obtain ⟨i, b, hb, hpick, hfirst, hleast⟩ := ih y
      have hx : rank (key b) < rank (key x) := (hleast 0 y rfl).trans_lt ((hrank _ _).mp hlt)
      rw [if_pos hlt]
      refine ⟨i + 1, b, hb, hpick, fun j hj z hz => ?_, fun j z hz => ?_⟩
      · cases j with
        | zero => cases hz; exact hx
        | succ j => exact hfirst j (Nat.lt_of_succ_lt_succ hj) z hz
      · cases j with
        | zero => cases hz; exact hx.le
        | succ j => exact hleast j z hz
    · obtain ⟨i, b, hb, hpick, hfirst, hleast⟩ := ih x
      have hxy : rank (key x) ≤ rank (key y) := not_lt.mp fun h => hlt ((hrank _ _).mpr h)
      have hall : ∀ (j : Nat) z, (x :: y :: ys)[j]? = some z → rank (key b) ≤ rank (key z) := by
        rintro (_ | _ | j) z hz
        · exact hleast 0 z hz
        · cases hz; exact (hleast 0 x rfl).trans hxy
        · exact hleast (j + 1) z hz
      rw [if_neg hlt]
      cases i with
      | zero => exact ⟨0, b, hb, hpick, nofun, hall⟩
      | succ i =>
        refine ⟨i + 2, b, hb, hpick, fun j hj z hz => ?_, hall⟩
        match j with
        | 0 => exact hfirst 0 i.succ_pos z hz
        | 1 => cases hz; exact (hfirst 0 i.succ_pos x rfl).trans_le hxy
        | j + 2 => exact hfirst (j + 1) (by omega) z hz

theorem Usable.nonneg {α : Type} [Scalar α] [Scalar.Ordered α] {x : α} (h : Usable x) : 0 ≤ x :=
  Scalar.Ordered.le_of_not_lt h.1 Scalar.Ordered.isFinite_zero h.2

end Relaxation
