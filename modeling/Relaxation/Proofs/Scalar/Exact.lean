import Mathlib
import Relaxation.Proofs.Scalar.Total

/-!
# Exact arithmetic

A finite number stands for a real one, and finite numbers compare as what they stand for. An integer
below `2 ^ 53` has a number of its own, for it has room for its leading bit in the highest place of a
mantissa (`Binary64.whole`). Sums, differences and products that stay below `2 ^ 53` are those of the
integers (`Binary64.ofInt_mul_ofInt`). The exception is a product of zero and a negative integer, which
is the other zero.
-/

namespace Relaxation.Binary64

open Float.Model UnpackedFloat

/-! ## What numbers stand for -/

/-- The real number that a finite number stands for. -/
noncomputable def value : UnpackedFloat → ℝ
  | .finite s m e _ => s.apply m * ((2 : ℕ) : ℝ) ^ e
  | _ => 0

/-- The real number that a number stands for when it is finite. -/
noncomputable def toReal (a : Binary64) : ℝ := value a.float.toModel.unpack

theorem value_negative {m : ℕ} {e : ℤ} (hm : 0 < m) :
    value (.finite .negative m e hm) = -(m * 2 ^ e) := by
  change ((-(m : ℤ) : ℤ) : ℝ) * 2 ^ e = _
  push_cast
  ring

theorem magnitude_pos {m : ℕ} (hm : 0 < m) (e : ℤ) : (0 : ℝ) < m * 2 ^ e := by positivity

/-- A greater exponent outweighs any mantissa. -/
theorem magnitude_lt_of_lt {m n : ℕ} {e f : ℤ} (hm : Canonical m e) (hn : Canonical n f)
    (h : e < f) : (m : ℝ) * 2 ^ e < n * 2 ^ f := by
  have hlt : (m : ℝ) < 2 * 2 ^ 52 := by exact_mod_cast hm.lt
  have hle : (2 : ℝ) ^ 52 ≤ n := by exact_mod_cast hn.le_of_lt (hm.least_le.trans_lt h)
  calc (m : ℝ) * 2 ^ e < 2 * 2 ^ 52 * 2 ^ e := by gcongr
    _ = 2 ^ 52 * 2 ^ (e + 1) := by rw [zpow_add_one₀ two_ne_zero]; ring
    _ ≤ n * 2 ^ f := by
      gcongr
      · exact one_le_two
      · exact h

/-- Numbers of one sign compare by exponent and then by mantissa. -/
theorem compare_magnitude {m n : ℕ} {e f : ℤ} (hm : Canonical m e) (hn : Canonical n f) :
    compare ((m : ℝ) * 2 ^ e) (n * 2 ^ f) = (compare e f).then (compare m n) := by
  have hpow : (0 : ℝ) < 2 ^ e := by positivity
  rcases lt_trichotomy e f with h | rfl | h
  · rw [compare_lt_iff_lt.mpr h]
    exact compare_lt_iff_lt.mpr (magnitude_lt_of_lt hm hn h)
  · rw [compare_eq_iff_eq.mpr rfl, Ordering.then]
    rcases lt_trichotomy m n with h | rfl | h
    · rw [compare_lt_iff_lt.mpr h]
      exact compare_lt_iff_lt.mpr (mul_lt_mul_of_pos_right (Nat.cast_lt.mpr h) hpow)
    · rw [compare_eq_iff_eq.mpr rfl, compare_eq_iff_eq.mpr rfl]
    · rw [compare_gt_iff_gt.mpr h]
      exact compare_gt_iff_gt.mpr (mul_lt_mul_of_pos_right (Nat.cast_lt.mpr h) hpow)
  · rw [compare_gt_iff_gt.mpr h]
    exact compare_gt_iff_gt.mpr (magnitude_lt_of_lt hn hm h)

theorem orders_value : Orders value where
  lt_zero s m e hm _ := by
    rw [value_negative]
    exact neg_lt_zero.mpr (magnitude_pos hm e)
  zero_lt s m e hm _ := magnitude_pos hm e
  positive _ _ h h' := compare_magnitude h h'
  negative hm hn h h' := by
    have hanti : StrictAnti fun x : ℝ => -x := fun _ _ => neg_lt_neg
    rw [value_negative, value_negative, compare_of_strictAnti hanti, compare_magnitude h h']

/-- Finite numbers compare as the real numbers that they stand for, which for both zeros is zero. -/
theorem compare_eq_compare_value {bits bits' : ℕ} {u v : UnpackedFloat} (hu : Encodes bits u)
    (hv : Encodes bits' v) (hu' : u.isFinite = true) (hv' : v.isFinite = true) :
    u.compare v = some (compare (value u) (value v)) := by
  rcases orders_value.compare_eq hu hv hu' hv' with ⟨s, t, rfl, rfl⟩ | hcompare
  · exact congrArg some (compare_eq_iff_eq.mpr rfl).symm
  · exact hcompare

section Order

variable {a b : Binary64} (ha : Scalar.isFinite a = true) (hb : Scalar.isFinite b = true)

include ha hb

theorem compare?_eq_compare_toReal : a.compare? b = some (compare a.toReal b.toReal) :=
  compare_eq_compare_value (encodes_toBits _) (encodes_toBits _) ha hb

/-- The order of finite numbers is that of the reals. -/
theorem lt_iff_toReal_lt : a < b ↔ a.toReal < b.toReal := by
  rw [lt_iff, compare?_eq_compare_toReal ha hb, Option.some.injEq, compare_lt_iff_lt]

theorem le_iff_toReal_le : a ≤ b ↔ a.toReal ≤ b.toReal := by
  rw [le_iff, compare?_eq_compare_toReal ha hb, ← compare_le_iff_le]
  simp [Ordering.isLE_iff_ne_gt]

end Order

/-! ## Rounding -/

/-- How many places the leading bit of a mantissa below `2 ^ 53` is from the highest one. -/
def room (m : ℕ) : ℕ := 52 - m.log2

/-- A number of this magnitude, with its leading bit in the highest place. -/
def whole (s : Sign) (m : ℕ) (hm : 0 < m) : UnpackedFloat :=
  .finite s (m * 2 ^ room m) (-room m) (Nat.mul_pos hm (Nat.two_pow_pos _))

section Round

variable {m : ℕ} (hm : 0 < m)

include hm

theorem log2_mul_two_pow (j : ℕ) : (m * 2 ^ j).log2 = m.log2 + j := by
  induction j with
  | zero => rw [pow_zero, mul_one, add_zero]
  | succ j ih =>
    rw [pow_succ', mul_left_comm, Nat.log2_two_mul (Nat.mul_pos hm (Nat.two_pow_pos j)).ne', ih,
      add_assoc]

variable (hlt : m < 2 ^ 53)

include hlt

/-- With the room used up the leading bit is in the highest place. -/
theorem log2_add_room : m.log2 + room m = 52 := by
  have hlog : m.log2 < 53 := (Nat.log2_lt hm.ne').mpr hlt
  rw [room]
  omega

omit hm hlt in
theorem room_le (m : ℕ) : room m ≤ 52 := Nat.sub_le ..

theorem targetExponent_whole (j : ℕ) :
    Format.binary64.targetExponent (totalExponent (m * 2 ^ j) (-j)) = -room m := by
  have hlog := log2_add_room hm hlt
  rw [totalExponent, log2_mul_two_pow hm, Format.targetExponent]
  change max ((m.log2 + j : ℕ) + 1 + -(j : ℤ) - 53) (-1074) = _
  omega

omit hm hlt in
/-- Zeros that are shifted out are not remembered. -/
theorem shiftRight_exact (m i : ℕ) :
    (⟨m * 2 ^ i, false, false⟩ : ExtendedMantissa) >>> i = ⟨m, false, false⟩ := by
  induction i generalizing m with
  | zero => rw [pow_zero, mul_one]; rfl
  | succ i ih =>
    have htwice : m * 2 ^ (i + 1) = m * 2 * 2 ^ i := by ring
    rw [htwice]
    change ((⟨m * 2 * 2 ^ i, false, false⟩ : ExtendedMantissa) >>> i).shiftRightOne = _
    rw [ih, ExtendedMantissa.shiftRightOne]
    simp

theorem shiftToTargetExponent_whole (i : ℕ) :
    shiftToTargetExponent .binary64 (m * 2 ^ (room m + i)) (-(room m + i : ℕ)) .exact =
      (⟨m * 2 ^ room m, false, false⟩, -(room m : ℤ)) := by
  have hshift : (-(room m : ℤ) - -(room m + i : ℕ)).toNat = i := by omega
  rw [shiftToTargetExponent, targetExponent_whole hm hlt, shiftToExponent]
  rw [hshift, pow_add, ← mul_assoc, ExtendedMantissa.ofMantissaAndAccuracy, shiftRight_exact]
  congr 1
  omega

/-- The places below the mantissa hold zeros, so nothing is rounded. -/
theorem roundWithAccuracy_whole (s : Sign) (i : ℕ) :
    roundWithAccuracy .binary64 s (m * 2 ^ (room m + i)) (-(room m + i : ℕ)) .exact =
      whole s m hm := by
  rw [roundWithAccuracy, shiftToTargetExponent_whole hm hlt i]
  dsimp only
  have hrounded : (⟨m * 2 ^ room m, false, false⟩ : ExtendedMantissa).roundedMantissa =
    m * 2 ^ (room m + 0) := rfl
  have hagain := shiftToTargetExponent_whole hm hlt 0
  rw [hrounded]
  rw [add_zero] at hagain ⊢
  rw [hagain]
  exact dif_neg (Nat.mul_pos hm (Nat.two_pow_pos _)).ne'

/-- An integer is brought to the full length of a mantissa, to the left or to the right. -/
theorem round_whole (s : Sign) (j : ℕ) :
    UnpackedFloat.round .binary64 s (m * 2 ^ j) (-j) = whole s m hm := by
  have hmantissa : (m * 2 ^ j) <<< (-(j : ℤ) - -(room m : ℤ)).toNat =
      m * 2 ^ (room m + (j - room m)) := by
    rw [Nat.shiftLeft_eq, mul_assoc, ← pow_add]
    congr 2
    omega
  have hexponent : -(j : ℤ) - (-(j : ℤ) - -(room m : ℤ)).toNat = -(room m + (j - room m) : ℕ) := by
    omega
  rw [UnpackedFloat.round]
  dsimp only
  rw [targetExponent_whole hm hlt, decreaseExponent]
  dsimp only
  rw [hmantissa, hexponent]
  exact roundWithAccuracy_whole hm hlt s _

end Round

/-! ## Integers -/

/-- The sign of an integer, positive for zero. -/
def signOf (k : ℤ) : Sign := if k < 0 then .negative else .positive

theorem apply_signOf (k : ℤ) : (signOf k).apply k.natAbs = k := by
  unfold signOf
  split
  · change -(k.natAbs : ℤ) = k
    omega
  · change (k.natAbs : ℤ) = k
    omega

/-- Places that an integer has below its unit are of no account. -/
theorem normalize_whole {k : ℤ} (hk : k ≠ 0) (hlt : k.natAbs < 2 ^ 53) (j : ℕ) (z : Sign) :
    normalize .binary64 (k * 2 ^ j) (-j) z = whole (signOf k) k.natAbs (Int.natAbs_pos.mpr hk) := by
  have hpow : (0 : ℤ) < 2 ^ j := by positivity
  have hround := round_whole (Int.natAbs_pos.mpr hk) hlt (signOf k) j
  have htoNat : (k.natAbs : ℤ) * 2 ^ j = (k.natAbs * 2 ^ j : ℕ) := by push_cast; rfl
  rw [UnpackedFloat.normalize]
  rcases hk.lt_or_gt with hneg | hpos
  · have hsign : signOf k = .negative := if_pos hneg
    have habs : -(k * 2 ^ j) = (k.natAbs * 2 ^ j : ℕ) := by
      rw [← htoNat, ← neg_mul]
      congr 1
      omega
    rw [compare_lt_iff_lt.mpr (mul_neg_of_neg_of_pos hneg hpow)]
    dsimp only
    rw [habs, Int.toNat_natCast, ← hsign, hround]
  · have hsign : signOf k = .positive := if_neg hpos.not_gt
    have habs : k * 2 ^ j = (k.natAbs * 2 ^ j : ℕ) := by
      rw [← htoNat]
      congr 1
      omega
    rw [compare_gt_iff_gt.mpr (mul_pos hpos hpow)]
    dsimp only
    rw [habs, Int.toNat_natCast, ← hsign, hround]

theorem ofInt_of_ne_zero {k : ℤ} (hk : k ≠ 0) (hlt : k.natAbs < 2 ^ 53) :
    UnpackedFloat.ofInt .binary64 k = whole (signOf k) k.natAbs (Int.natAbs_pos.mpr hk) := by
  have hnormal := normalize_whole hk hlt 0 .positive
  rwa [pow_zero, mul_one] at hnormal

theorem normalize_eq_ofInt {k : ℤ} (hlt : k.natAbs < 2 ^ 53) (j : ℕ) :
    normalize .binary64 (k * 2 ^ j) (-j) .positive = UnpackedFloat.ofInt .binary64 k := by
  by_cases hk : k = 0
  · rw [hk, zero_mul]
    rfl
  · rw [normalize_whole hk hlt, ofInt_of_ne_zero hk hlt]

/-- Over a smaller exponent the mantissa of an integer is the greater. -/
theorem decreaseExponent_whole (m : ℕ) {i j : ℕ} (hij : i ≤ j) :
    (decreaseExponent (m * 2 ^ i) (-i) (-j)).1 = m * 2 ^ j := by
  have hshift : (-(i : ℤ) - -(j : ℤ)).toNat = j - i := by omega
  rw [decreaseExponent]
  rw [hshift, Nat.shiftLeft_eq, mul_assoc, ← pow_add, Nat.add_sub_cancel' hij]

theorem apply_mul_two_pow (s : Sign) (m j : ℕ) :
    s.apply (m * 2 ^ j : ℕ) = s.apply m * 2 ^ j := by
  cases s
  · change -((m * 2 ^ j : ℕ) : ℤ) = -(m : ℤ) * 2 ^ j
    push_cast
    ring
  · change ((m * 2 ^ j : ℕ) : ℤ) = (m : ℤ) * 2 ^ j
    push_cast
    ring

/-- Zero is left out, for its opposite is another number. -/
theorem neg_ofInt {k : ℤ} (hk : k ≠ 0) (hlt : k.natAbs < 2 ^ 53) :
    (UnpackedFloat.ofInt .binary64 k).neg = .ofInt .binary64 (-k) := by
  have hsign : signOf (-k) = -signOf k := by
    unfold signOf
    split_ifs <;> first | rfl | omega
  rw [ofInt_of_ne_zero hk hlt, ofInt_of_ne_zero (neg_ne_zero.mpr hk) (by rwa [Int.natAbs_neg]),
    hsign]
  simp only [whole, UnpackedFloat.neg, Int.natAbs_neg]

theorem add_eq_sub_neg (a b : UnpackedFloat) :
    UnpackedFloat.add .binary64 a b = UnpackedFloat.sub .binary64 a b.neg := by
  cases a with
  | notANumber => cases b <;> rfl
  | infinity s | zero s =>
    cases b with
    | infinity t | zero t => cases s <;> cases t <;> rfl
    | notANumber => rfl
    | finite t => cases t <;> rfl
  | finite s m e hm =>
    cases b with
    | infinity t | zero t => cases t <;> rfl
    | notANumber => rfl
    | finite t n f hn =>
      have happly : ∀ k : ℕ, (-t).apply k = -t.apply k := fun k => by
        cases t
        · exact (neg_neg (k : ℤ)).symm
        · rfl
      simp only [UnpackedFloat.add, UnpackedFloat.neg, UnpackedFloat.sub, happly, sub_neg_eq_add]

theorem signOf_mul {k l : ℤ} (hk : k ≠ 0) (hl : l ≠ 0) : signOf (k * l) = signOf k * signOf l := by
  rcases hk.lt_or_gt with hk | hk <;> rcases hl.lt_or_gt with hl | hl
  · rw [signOf, signOf, signOf, if_neg (mul_pos_of_neg_of_neg hk hl).not_gt, if_pos hk, if_pos hl]
    rfl
  · rw [signOf, signOf, signOf, if_pos (mul_neg_of_neg_of_pos hk hl), if_pos hk, if_neg hl.not_gt]
    rfl
  · rw [signOf, signOf, signOf, if_pos (mul_neg_of_pos_of_neg hk hl), if_neg hk.not_gt, if_pos hl]
    rfl
  · rw [signOf, signOf, signOf, if_neg (mul_pos hk hl).not_gt, if_neg hk.not_gt, if_neg hl.not_gt]
    rfl

/-- A product of integers has the room that its factors have, or less. -/
theorem log2_add_log2_le {m n : ℕ} (hm : 0 < m) (hn : 0 < n) : m.log2 + n.log2 ≤ (m * n).log2 := by
  rw [Nat.le_log2 (Nat.mul_pos hm hn).ne', pow_add]
  exact Nat.mul_le_mul (Nat.log2_self_le hm.ne') (Nat.log2_self_le hn.ne')

theorem mul_ofInt_of_eq_zero {k l : ℤ} (hk : k.natAbs < 2 ^ 53) (hl : l.natAbs < 2 ^ 53)
    (hkl : k = 0 ∨ l = 0) (hk' : 0 ≤ k) (hl' : 0 ≤ l) :
    UnpackedFloat.mul .binary64 (.ofInt .binary64 k) (.ofInt .binary64 l) = .zero .positive := by
  have hpos : ∀ {k : ℤ}, 0 ≤ k → signOf k = .positive := fun h => if_neg h.not_gt
  rcases hk'.eq_or_lt with rfl | hk'
  · rcases hl'.eq_or_lt with rfl | hl'
    · rfl
    · rw [ofInt_of_ne_zero hl'.ne' hl, hpos hl'.le]
      rfl
  · obtain rfl := hkl.resolve_left hk'.ne'
    rw [ofInt_of_ne_zero hk'.ne' hk, hpos hk'.le]
    rfl

section Arithmetic

variable {k l : ℤ} (hk : k.natAbs < 2 ^ 53) (hl : l.natAbs < 2 ^ 53)

include hk hl

/-- Both are brought to the smaller exponent, where the difference is that of integers. -/
theorem sub_ofInt (hkl : (k - l).natAbs < 2 ^ 53) :
    UnpackedFloat.sub .binary64 (.ofInt .binary64 k) (.ofInt .binary64 l) =
      .ofInt .binary64 (k - l) := by
  by_cases hl' : l = 0
  · rw [hl', sub_zero]
    by_cases hk' : k = 0
    · rw [hk']
      rfl
    · rw [ofInt_of_ne_zero hk' hk]
      rfl
  by_cases hk' : k = 0
  · rw [hk', zero_sub, ← neg_ofInt hl' hl, ofInt_of_ne_zero hl' hl]
    rfl
  rw [ofInt_of_ne_zero hk' hk, ofInt_of_ne_zero hl' hl, whole, whole, UnpackedFloat.sub]
  obtain ⟨j, hj, hkj, hlj⟩ : ∃ j : ℕ, min (-(room k.natAbs : ℤ)) (-room l.natAbs) = -j ∧
      room k.natAbs ≤ j ∧ room l.natAbs ≤ j :=
    ⟨max (room k.natAbs) (room l.natAbs), by omega, le_max_left .., le_max_right ..⟩
  rw [← normalize_eq_ofInt hkl j]
  dsimp only
  rw [hj, decreaseExponent_whole _ hkj, decreaseExponent_whole _ hlj, apply_mul_two_pow,
    apply_mul_two_pow, apply_signOf, apply_signOf, sub_mul]

theorem add_ofInt (hkl : (k + l).natAbs < 2 ^ 53) :
    UnpackedFloat.add .binary64 (.ofInt .binary64 k) (.ofInt .binary64 l) =
      .ofInt .binary64 (k + l) := by
  by_cases hl' : l = 0
  · rw [hl', add_zero]
    by_cases hk' : k = 0
    · rw [hk']
      rfl
    · rw [ofInt_of_ne_zero hk' hk]
      rfl
  · rw [add_eq_sub_neg, neg_ofInt hl' hl, sub_ofInt hk (by rwa [Int.natAbs_neg])
      (by rwa [sub_neg_eq_add]), sub_neg_eq_add]

/-- A product of zero and a negative number is the other zero. -/
theorem mul_ofInt (hzero : k * l = 0 → 0 ≤ k ∧ 0 ≤ l) (hkl : (k * l).natAbs < 2 ^ 53) :
    UnpackedFloat.mul .binary64 (.ofInt .binary64 k) (.ofInt .binary64 l) =
      .ofInt .binary64 (k * l) := by
  by_cases hkl' : k * l = 0
  · obtain ⟨hk', hl'⟩ := hzero hkl'
    rw [hkl']
    exact mul_ofInt_of_eq_zero hk hl (mul_eq_zero.mp hkl') hk' hl'
  obtain ⟨hk', hl'⟩ := mul_ne_zero_iff.mp hkl'
  have hroom : room (k * l).natAbs ≤ room k.natAbs + room l.natAbs := by
    have hlog := log2_add_log2_le (Int.natAbs_pos.mpr hk') (Int.natAbs_pos.mpr hl')
    rw [Int.natAbs_mul, room, room, room]
    omega
  obtain ⟨i, hi⟩ := Nat.exists_eq_add_of_le hroom
  rw [ofInt_of_ne_zero hk' hk, ofInt_of_ne_zero hl' hl, ofInt_of_ne_zero hkl' hkl,
    ← roundWithAccuracy_whole (Int.natAbs_pos.mpr hkl') hkl _ i, signOf_mul hk' hl', ← hi]
  rw [whole, whole, UnpackedFloat.mul]
  congr 1
  · rw [Int.natAbs_mul, pow_add]
    ring
  · push_cast
    ring

end Arithmetic

/-! ## Numbers that are integers -/

theorem le_mantissa {m : ℕ} (hm : 0 < m) (hlt : m < 2 ^ 53) : 2 ^ 52 ≤ m * 2 ^ room m := by
  calc 2 ^ 52 = 2 ^ m.log2 * 2 ^ room m := by rw [← pow_add, log2_add_room hm hlt]
    _ ≤ m * 2 ^ room m := Nat.mul_le_mul_right _ (Nat.log2_self_le hm.ne')

theorem mantissa_lt {m : ℕ} (hm : 0 < m) (hlt : m < 2 ^ 53) : m * 2 ^ room m < 2 ^ 53 := by
  calc m * 2 ^ room m < 2 ^ (m.log2 + 1) * 2 ^ room m :=
        Nat.mul_lt_mul_of_pos_right Nat.lt_log2_self (Nat.two_pow_pos _)
    _ = 2 ^ 53 := by rw [← pow_add, add_right_comm, log2_add_room hm hlt]

/-- The leading bit is not stored, and comes back with an exponent that is not the least one. -/
theorem unpack_pack_whole (s : Sign) {m : ℕ} (hm : 0 < m) (hlt : m < 2 ^ 53) :
    (Float.Model.pack (whole s m hm)).unpack = whole s m hm := by
  have hlow := le_mantissa hm hlt
  have hhigh := mantissa_lt hm hlt
  have hroom := room_le m
  have hbiased : (-(room m : ℤ) + (Format.binary64.exponentBias : ℕ) +
      (Format.binary64.mantissaBitsWithoutImplicit : ℕ)).toNat = 1075 - room m := by
    change (-(room m : ℤ) + 1023 + 52).toNat = _
    omega
  have hlog : (m * 2 ^ room m).log2 + 1 = Format.binary64.mantissaBits := by
    rw [log2_mul_two_pow hm, log2_add_room hm hlt]
    rfl
  have hpacked : UnpackedFloat.pack .binary64 (whole s m hm) =
      packComponents .binary64 s (BitVec.ofNat _ (1075 - room m)) (BitVec.ofNat _ (m * 2 ^ room m)) := by
    rw [whole, UnpackedFloat.pack]
    dsimp only
    rw [hbiased, if_neg (by omega), if_pos hlog]
  have hexponent : (BitVec.ofNat 11 (1075 - room m)).toNat = 1075 - room m := by
    rw [BitVec.toNat_ofNat, Nat.mod_eq_of_lt (by omega)]
  have hmantissa : (1#1 ++ BitVec.ofNat 52 (m * 2 ^ room m)).toNat = m * 2 ^ room m := by
    rw [toNat_append_one, BitVec.toNat_ofNat]
    omega
  have hmax : BitVec.ofNat 11 (1075 - room m) ≠ -1#11 := fun h => by
    have h := hexponent.symm.trans (congrArg BitVec.toNat h)
    change 1075 - room m = 2047 at h
    omega
  have hmin : BitVec.ofNat 11 (1075 - room m) ≠ 0#11 := fun h => by
    have h := hexponent.symm.trans (congrArg BitVec.toNat h)
    change 1075 - room m = 0 at h
    omega
  change UnpackedFloat.unpack .binary64 (UnpackedFloat.pack .binary64 (whole s m hm)) = _
  rw [hpacked, UnpackedFloat.unpack]
  simp only [unpackExponent_packComponents, unpackMantissa_packComponents,
    unpackSign_packComponents, Sign.ofBitVec_toBitVec]
  rw [if_neg hmax, if_neg hmin, whole]
  congr 1
  change ((BitVec.ofNat 11 (1075 - room m)).toNat : ℤ) - 1075 = _
  rw [hexponent]
  omega

theorem unpack_ofInt {k : ℤ} (h : k.natAbs < 2 ^ 53) :
    (Float.Model.ofInt k).unpack = .ofInt .binary64 k := by
  rw [Float.Model.ofInt]
  by_cases hk : k = 0
  · rw [hk]
    rfl
  · rw [ofInt_of_ne_zero hk h]
    exact unpack_pack_whole _ _ h

/-- An integer as a number. -/
def ofInt (k : ℤ) : Binary64 := ofFloat (.ofModel (.ofInt k))

theorem ofSign_of_isFinite {x : Float} (h : x.isFinite = true) (negative : Bool) :
    ofSign negative x = ofFloat x := by
  have hnan : x.isNaN = false := by
    change x.toModel.unpack.isFinite = true at h
    change x.toModel.unpack.isNaN = false
    cases hu : x.toModel.unpack <;> rw [hu] at h
    case notANumber => cases h
    all_goals rfl
  simp only [ofSign, ofFloat, hnan, Bool.false_and]

theorem isFinite_ofInt {k : ℤ} (h : k.natAbs < 2 ^ 53) : Scalar.isFinite (ofInt k) = true := by
  change (Float.Model.ofInt k).unpack.isFinite = true
  rw [unpack_ofInt h]
  by_cases hk : k = 0
  · rw [hk]
    rfl
  · rw [ofInt_of_ne_zero hk h]
    rfl

/-- The result of an operation when it is an integer. -/
theorem ofSign_eq_ofInt {x : Float} {k : ℤ} (h : k.natAbs < 2 ^ 53)
    (hx : x = .ofModel (.ofInt k)) (negative : Bool) : ofSign negative x = ofInt k := by
  have hfinite : x.isFinite = true := hx ▸ isFinite_ofInt h
  rw [ofSign_of_isFinite hfinite, hx, ofInt]

/-- An integer below `2 ^ 53` stands for itself. -/
theorem toReal_ofInt {k : ℤ} (h : k.natAbs < 2 ^ 53) : (ofInt k).toReal = k := by
  change value (Float.Model.ofInt k).unpack = k
  rw [unpack_ofInt h]
  by_cases hk : k = 0
  · rw [hk, Int.cast_zero]
    rfl
  · rw [ofInt_of_ne_zero hk h, whole, value, apply_mul_two_pow, apply_signOf]
    push_cast
    rw [mul_assoc, ← zpow_natCast, ← zpow_add₀ two_ne_zero, add_neg_cancel, zpow_zero, mul_one]

section Arithmetic

variable {k l : ℤ} (hk : k.natAbs < 2 ^ 53) (hl : l.natAbs < 2 ^ 53)

include hk hl

theorem ofInt_add_ofInt (hkl : (k + l).natAbs < 2 ^ 53) : ofInt k + ofInt l = ofInt (k + l) := by
  refine ofSign_eq_ofInt hkl ?_ _
  change Float.ofModel (.pack (UnpackedFloat.add .binary64 (Float.Model.ofInt k).unpack
    (Float.Model.ofInt l).unpack)) = _
  rw [unpack_ofInt hk, unpack_ofInt hl, add_ofInt hk hl hkl, Float.Model.ofInt]

theorem ofInt_sub_ofInt (hkl : (k - l).natAbs < 2 ^ 53) : ofInt k - ofInt l = ofInt (k - l) := by
  refine ofSign_eq_ofInt hkl ?_ _
  change Float.ofModel (.pack (UnpackedFloat.sub .binary64 (Float.Model.ofInt k).unpack
    (Float.Model.ofInt l).unpack)) = _
  rw [unpack_ofInt hk, unpack_ofInt hl, sub_ofInt hk hl hkl, Float.Model.ofInt]

/-- A product that is zero must not have a negative factor, which would make it the other zero. -/
theorem ofInt_mul_ofInt (hzero : k * l = 0 → 0 ≤ k ∧ 0 ≤ l) (hkl : (k * l).natAbs < 2 ^ 53) :
    ofInt k * ofInt l = ofInt (k * l) := by
  refine ofSign_eq_ofInt hkl ?_ _
  change Float.ofModel (.pack (UnpackedFloat.mul .binary64 (Float.Model.ofInt k).unpack
    (Float.Model.ofInt l).unpack)) = _
  rw [unpack_ofInt hk, unpack_ofInt hl, mul_ofInt hk hl hzero hkl, Float.Model.ofInt]

end Arithmetic

/-- Short decimals come about as a product of an integer and a power of ten. -/
theorem ofNat_eq_ofInt {n : ℕ} (h : n < 2 ^ 53) : Float.ofNat n = .ofModel (.ofInt n) := by
  have hfast : n < 2 ^ 53 ∧ 0 ≤ 22 := ⟨h, Nat.zero_le 22⟩
  have habs : (n : ℤ).natAbs < 2 ^ 53 := by rwa [Int.natAbs_natCast]
  have hone : Float.exactlyRepresentablePowersOfTen[0].toModel = Float.Model.ofInt 1 := by
    decide +kernel
  have hn : Float.Model.ofUInt64 n.toUInt64 = Float.Model.ofInt n := by
    have htoNat : n.toUInt64.toNat = n := by
      rw [Nat.toUInt64_eq, UInt64.toNat_ofNat']
      omega
    rw [Float.Model.ofUInt64, UnpackedFloat.ofUInt64, UnpackedFloat.ofNat, htoNat]
    rfl
  change Float.ofScientific n false 0 = _
  rw [Float.ofScientific, dif_pos hfast]
  change Float.ofModel (.pack (UnpackedFloat.mul .binary64
    (Float.Model.ofUInt64 n.toUInt64).unpack _)) = _
  rw [hn, hone, unpack_ofInt habs, unpack_ofInt (by decide),
    mul_ofInt habs (by decide) (fun _ => ⟨Int.natCast_nonneg n, zero_le_one⟩) (by rwa [mul_one]),
    mul_one, Float.Model.ofInt]

theorem natCast_eq_ofInt {n : ℕ} (h : n < 2 ^ 53) : (n : Binary64) = ofInt n := by
  change ofFloat (Float.ofNat n) = _
  rw [ofNat_eq_ofInt h, ofInt]

theorem toReal_natCast {n : ℕ} (h : n < 2 ^ 53) : (n : Binary64).toReal = n := by
  rw [natCast_eq_ofInt h, toReal_ofInt (by rwa [Int.natAbs_natCast]), Int.cast_natCast]

theorem toReal_zero : (0 : Binary64).toReal = 0 := by
  have hzero : (ofInt 0).toReal = (0 : ℤ) := toReal_ofInt (by decide)
  rwa [Int.cast_zero] at hzero

theorem sqrt_one : Scalar.sqrt (1 : Binary64) = 1 := by
  have hsqrt : (ofInt 1).float.sqrt = .ofModel (.ofInt 1) := by decide +kernel
  exact ofSign_eq_ofInt (by decide) hsqrt _

end Relaxation.Binary64
