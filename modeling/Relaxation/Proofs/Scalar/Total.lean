import Mathlib.Order.Compare
import Relaxation.Proofs.Scalar.Order

/-!
# The total order of finite numbers

The total order goes on from `<`: of two finite numbers the smaller one comes first, and equal ones
are told apart only where they are zeros. For binary64 numbers this is because the bits below the
sign grow with the number: they hold the exponent above the mantissa, and only the numbers with the
least exponent have a mantissa without its leading bit (`Binary64.Encodes`). Numbers compare by any key
that follows sign, exponent and mantissa in this way (`Binary64.Orders`), and their rank is one.
-/

namespace Relaxation

/-- A scalar whose total order is that of `<` on finite numbers, the zeros apart. -/
class Scalar.TotallyOrdered (α : Type) [Scalar α] : Prop extends Scalar.Ordered α where
  totalLt_of_lt {a b : α} : isFinite a = true → isFinite b = true → a < b → totalLt a b = true
  eq_zero_or_of_beq {a b : α} : isFinite a = true → isFinite b = true → (a == b) = true →
    (a == 0) = true ∨ totalLt a b = false ∧ totalLt b a = false

instance : Scalar.TotallyOrdered ℝ where
  totalLt_of_lt _ _ h := Scalar.totalLt_real_iff.mpr h
  eq_zero_or_of_beq _ _ h := by
    rw [Scalar.beq_real_iff.mp h]
    exact .inr ⟨decide_eq_false (lt_irrefl _), decide_eq_false (lt_irrefl _)⟩

namespace Scalar

variable {α : Type} [Scalar α]

/-- Whether `a` and `b` are equal and, when they are zeros, of the same sign. -/
def Alike (a b : α) : Prop :=
  (a == b) = true ∧ ((a == 0) = true → totalLt a b = false ∧ totalLt b a = false)

section Ordered

variable [Scalar.Ordered α]

theorem totalLt_trans {a b c : α} (hab : totalLt a b = false) (hbc : totalLt b c = false) :
    totalLt a c = false := by
  obtain ⟨L, _, rank, hrank⟩ := Ordered.exists_rank (α := α)
  rw [Bool.eq_false_iff, Ne, hrank, not_lt] at *
  exact hbc.trans hab

theorem totalLt_total (a b : α) : totalLt a b = false ∨ totalLt b a = false := by
  obtain ⟨L, _, rank, hrank⟩ := Ordered.exists_rank (α := α)
  rw [Bool.eq_false_iff, Bool.eq_false_iff, Ne, Ne, hrank, hrank, not_lt, not_lt]
  exact le_total _ _

theorem totalLt_self (a : α) : totalLt a a = false := (totalLt_total a a).elim id id

end Ordered

variable [Scalar.TotallyOrdered α] {a b : α}

theorem le_of_not_totalLt (ha : isFinite a = true) (hb : isFinite b = true)
    (h : totalLt a b = false) : b ≤ a :=
  Ordered.le_of_not_lt ha hb fun hlt =>
    Bool.eq_false_iff.mp h (TotallyOrdered.totalLt_of_lt ha hb hlt)

theorem Alike.not_totalLt (h : Alike a b) (ha : isFinite a = true) (hb : isFinite b = true) :
    totalLt b a = false := by
  rcases TotallyOrdered.eq_zero_or_of_beq ha hb h.1 with hzero | htied
  · exact (h.2 hzero).2
  · exact htied.2

end Scalar

namespace Binary64

open Float.Model UnpackedFloat

/-- The bit that stands for a sign. -/
def signBit : Sign → Int
  | .positive => 0
  | .negative => 2 ^ 63

/-- The mantissas and exponents of finite numbers: a mantissa has its leading bit unless the exponent
is the least one. -/
structure Canonical (m : Nat) (e : Int) : Prop where
  least_le : -1074 ≤ e
  le_greatest : e ≤ 971
  lt : m < 2 * 2 ^ 52
  le_of_lt : -1074 < e → 2 ^ 52 ≤ m

/-- Whether the bits of a finite number are its sign, its exponent and its mantissa, in this order. -/
def Encodes (bits : Nat) : UnpackedFloat → Prop
  | .zero s => (bits : Int) = signBit s
  | .finite s m e _ =>
    (bits : Int) = signBit s + (e + 1074) * 2 ^ 52 + m ∧ Canonical m e
  | _ => True

theorem toNat_append_one (m : BitVec 52) : (1#1 ++ m).toNat = 2 ^ 52 + m.toNat := by
  rw [BitVec.toNat_append, ← Nat.shiftLeft_add_eq_or_of_lt m.isLt]
  rfl

section Fields

variable (b : BitVec Format.binary64.numBits)

theorem toNat_unpackMantissa : (unpackMantissa b).toNat = b.toNat % 2 ^ 52 := by
  rw [unpackMantissa, BitVec.toNat_cast, BitVec.extractLsb_toNat, Nat.shiftRight_zero]
  rfl

theorem toNat_unpackExponent : (unpackExponent b).toNat = b.toNat / 2 ^ 52 % 2 ^ 11 := by
  rw [unpackExponent, BitVec.toNat_cast, BitVec.extractLsb_toNat, Nat.shiftRight_eq_div_pow]
  rfl

theorem toNat_unpackSign : (unpackSign b).toNat = b.toNat / 2 ^ 63 % 2 := by
  refine (BitVec.toNat_cast ..).trans ?_
  rw [BitVec.extractLsb_toNat, Nat.shiftRight_eq_div_pow]
  rfl

theorem signBit_ofBitVec (s : BitVec 1) :
    signBit (Sign.ofBitVec s) = s.toNat * 2 ^ 63 := by
  rcases BitVec.eq_zero_or_eq_one s with rfl | rfl <;> rfl

/-- The three fields side by side. -/
theorem toNat_eq_fields : (b.toNat : Int) = signBit (Sign.ofBitVec (unpackSign b)) +
    (unpackExponent b).toNat * 2 ^ 52 + (unpackMantissa b).toNat := by
  have hlt : b.toNat < 2 ^ 64 := b.isLt
  rw [signBit_ofBitVec, toNat_unpackSign, toNat_unpackExponent, toNat_unpackMantissa]
  omega

theorem encodes_unpack : Encodes b.toNat (UnpackedFloat.unpack .binary64 b) := by
  have hbits := toNat_eq_fields b
  have hexponent : (unpackExponent b).toNat < 2048 := (unpackExponent b).isLt
  have hmantissa : (unpackMantissa b).toNat < 2 ^ 52 := (unpackMantissa b).isLt
  have hbias : (Format.binary64.exponentBias : Int) + (52 : Nat) = 1075 := rfl
  unfold UnpackedFloat.unpack
  dsimp only
  rw [hbias]
  by_cases hmax : unpackExponent b = -1#_
  · rw [if_pos hmax]
    by_cases hinf : unpackMantissa b = 0#_
    · rw [if_pos hinf]; trivial
    · rw [if_neg hinf]; trivial
  rw [if_neg hmax]
  by_cases hmin : unpackExponent b = 0#_
  · rw [if_pos hmin]
    by_cases hzero : unpackMantissa b = 0#_
    · rw [dif_pos hzero]
      rw [hmin, hzero] at hbits
      exact hbits.trans (by simp)
    · rw [dif_neg hzero]
      have hleast : (unpackExponent b).toNat = 0 := by rw [hmin]; rfl
      refine ⟨?_, ?_, ?_, ?_, ?_⟩ <;> omega
  · rw [if_neg hmin]
    have hleading := toNat_append_one (unpackMantissa b)
    have hpos : (unpackExponent b).toNat ≠ 0 := fun h => hmin (BitVec.eq_of_toNat_eq h)
    have hlt : (unpackExponent b).toNat ≠ 2047 := fun h => hmax (BitVec.eq_of_toNat_eq h)
    refine ⟨?_, ?_, ?_, ?_, ?_⟩ <;> omega

end Fields

theorem encodes_toBits (x : Float) : Encodes x.toBits.toNat x.toModel.unpack := encodes_unpack _

/-! ## Ranks -/

/-- The rank of the number with a given sign that is the `k`-th one from zero. -/
def signed : Sign → Int → Int
  | .positive, k => k
  | .negative, k => -1 - k

/-- The place of a finite number in the total order. -/
def rank : UnpackedFloat → Int
  | .zero s => signed s 0
  | .finite s m e _ => signed s ((e + 1074) * 2 ^ 52 + m)
  | _ => 0

theorem exists_rank_eq {bits : Nat} {u : UnpackedFloat} (h : Encodes bits u)
    (hu : u.isFinite = true) : ∃ s k, rank u = signed s k ∧ (bits : Int) = signBit s + k ∧
      0 ≤ k ∧ k < 2 ^ 63 := by
  cases u with
  | notANumber | infinity => cases hu
  | zero s => exact ⟨s, 0, rfl, h.trans (add_zero _).symm, le_rfl, by decide⟩
  | finite s m e _ =>
    obtain ⟨hbits, hleast, hmost, hm, -⟩ := h
    refine ⟨s, _, rfl, hbits.trans (add_assoc ..), ?_⟩
    omega

theorem totalRank_eq_rank {a : Binary64} (h : Scalar.isFinite a = true) :
    a.totalRank = rank a.float.toModel.unpack := by
  change a.float.toModel.unpack.isFinite = true at h
  have hsign : a.negativeNaN = false := by
    refine Bool.eq_false_iff.mpr fun hnan => ?_
    have hnan : a.float.toModel.unpack.isNaN = true := a.isNaN_of_negativeNaN hnan
    cases hu : a.float.toModel.unpack <;> rw [hu] at h hnan <;> contradiction
  obtain ⟨s, k, hrank, hbits, hk, hk'⟩ := exists_rank_eq (encodes_toBits _) h
  have hunit : Binary.signUnit = 2 ^ 63 := rfl
  unfold totalRank
  dsimp only
  rw [hsign, if_neg Bool.false_ne_true, hrank]
  cases s with
  | positive =>
    rw [signBit, zero_add] at hbits
    rw [if_pos (by omega), hbits, signed]
  | negative =>
    rw [signBit] at hbits
    rw [if_neg (by omega), hbits, hunit, signed]
    omega

theorem compare_of_strictAnti {K L : Type} [LinearOrder K] [LinearOrder L] {f : K → L}
    (hf : StrictAnti f) (k l : K) : compare (f k) (f l) = (compare k l).swap := by
  rw [← cmp_eq_compare, ← cmp_eq_compare, hf.cmp_map_eq, cmp_swap]

/-- A greater exponent outweighs any mantissa. -/
theorem compare_fields {m n : Nat} {e f : Int} (hm : Canonical m e) (hn : Canonical n f) :
    compare ((e + 1074) * 2 ^ 52 + m) ((f + 1074) * 2 ^ 52 + n : Int) =
      (compare e f).then (compare m n) := by
  obtain ⟨he, -, hm, hm'⟩ := hm
  obtain ⟨hf, -, hn, hn'⟩ := hn
  -- With the greater exponent not the least one, its mantissa has the leading bit, which makes up
  -- for the leading bit that the other mantissa may have.
  rcases lt_trichotomy e f with h | rfl | h
  · rw [compare_lt_iff_lt.mpr h]
    exact compare_lt_iff_lt.mpr (by omega)
  · rw [compare_eq_iff_eq.mpr rfl, Ordering.then]
    rcases lt_trichotomy m n with h | rfl | h
    · rw [compare_lt_iff_lt.mpr h]
      exact compare_lt_iff_lt.mpr (by omega)
    · rw [compare_eq_iff_eq.mpr rfl, compare_eq_iff_eq.mpr rfl]
    · rw [compare_gt_iff_gt.mpr h]
      exact compare_gt_iff_gt.mpr (by omega)
  · rw [compare_gt_iff_gt.mpr h]
    exact compare_gt_iff_gt.mpr (by omega)

/-- A key that puts the zeros between the negative and the positive numbers, and numbers of one sign
in the order of their exponents and, where these agree, of their mantissas. -/
structure Orders {L : Type} [LinearOrder L] (key : UnpackedFloat → L) : Prop where
  lt_zero (s : Sign) {m : Nat} {e : Int} (hm : 0 < m) (h : Canonical m e) :
    key (.finite .negative m e hm) < key (.zero s)
  zero_lt (s : Sign) {m : Nat} {e : Int} (hm : 0 < m) (h : Canonical m e) :
    key (.zero s) < key (.finite .positive m e hm)
  positive {m n : Nat} {e f : Int} (hm : 0 < m) (hn : 0 < n) (h : Canonical m e)
    (h' : Canonical n f) :
    compare (key (.finite .positive m e hm)) (key (.finite .positive n f hn)) =
      (compare e f).then (compare m n)
  negative {m n : Nat} {e f : Int} (hm : 0 < m) (hn : 0 < n) (h : Canonical m e)
    (h' : Canonical n f) :
    compare (key (.finite .negative m e hm)) (key (.finite .negative n f hn)) =
      ((compare e f).then (compare m n)).swap

section Compare

variable {L : Type} [LinearOrder L] {key : UnpackedFloat → L} {u v : UnpackedFloat}

theorem compare_eq_of_lt (h : u.compare v = some .lt) (hlt : key u < key v) :
    u.compare v = some (compare (key u) (key v)) :=
  h.trans (congrArg some (compare_lt_iff_lt.mpr hlt).symm)

theorem compare_eq_of_gt (h : u.compare v = some .gt) (hlt : key v < key u) :
    u.compare v = some (compare (key u) (key v)) :=
  h.trans (congrArg some (compare_gt_iff_gt.mpr hlt).symm)

/-- Finite numbers compare as their keys do, the zeros apart. -/
theorem Orders.compare_eq (h : Orders key) {bits bits' : Nat} (hu : Encodes bits u)
    (hv : Encodes bits' v) (hu' : u.isFinite = true) (hv' : v.isFinite = true) :
    (∃ s t, u = .zero s ∧ v = .zero t) ∨ u.compare v = some (compare (key u) (key v)) := by
  cases u with
  | notANumber | infinity => cases hu'
  | zero s =>
    cases v with
    | notANumber | infinity => cases hv'
    | zero t => exact .inl ⟨s, t, rfl, rfl⟩
    | finite t n f hn =>
      cases t with
      | positive => exact .inr (compare_eq_of_lt rfl (h.zero_lt s hn hv.2))
      | negative => exact .inr (compare_eq_of_gt rfl (h.lt_zero s hn hv.2))
  | finite s m e hm =>
    cases v with
    | notANumber | infinity => cases hv'
    | zero t =>
      cases s with
      | positive => exact .inr (compare_eq_of_gt rfl (h.zero_lt t hm hu.2))
      | negative => exact .inr (compare_eq_of_lt rfl (h.lt_zero t hm hu.2))
    | finite t n f hn =>
      refine .inr ?_
      cases s <;> cases t
      case positive.negative =>
        exact compare_eq_of_gt rfl ((h.lt_zero .positive hn hv.2).trans (h.zero_lt _ hm hu.2))
      case negative.positive =>
        exact compare_eq_of_lt rfl ((h.lt_zero .positive hm hu.2).trans (h.zero_lt _ hn hv.2))
      case positive.positive => exact congrArg some (h.positive hm hn hu.2 hv.2).symm
      case negative.negative => exact congrArg some (h.negative hm hn hu.2 hv.2).symm

end Compare

theorem rank_zero (s : Sign) : -1 ≤ rank (.zero s) ∧ rank (.zero s) ≤ 0 := by
  cases s <;> exact ⟨by decide, by decide⟩

theorem orders_rank : Orders rank where
  lt_zero s m e hm h := by
    have hzero := rank_zero s
    have hleast := h.least_le
    change -1 - ((e + 1074) * 2 ^ 52 + (m : Int)) < _
    omega
  zero_lt s m e hm h := by
    have hzero := rank_zero s
    have hleast := h.least_le
    change _ < (e + 1074) * 2 ^ 52 + (m : Int)
    omega
  positive _ _ h h' := compare_fields h h'
  negative _ _ h h' := by
    have hanti : StrictAnti fun k : Int => -1 - k := fun k l h => by
      change -1 - l < -1 - k
      omega
    exact (compare_of_strictAnti hanti _ _).trans (congrArg Ordering.swap (compare_fields h h'))

theorem totalLt_iff {a b : Binary64} (ha : Scalar.isFinite a = true)
    (hb : Scalar.isFinite b = true) : Scalar.totalLt a b = true ↔
      rank a.float.toModel.unpack < rank b.float.toModel.unpack := by
  rw [← totalRank_eq_rank ha, ← totalRank_eq_rank hb]
  exact decide_eq_true_iff

theorem beq_iff {a b : Binary64} : (a == b) = true ↔ a.compare? b = some .eq :=
  beq_iff_eq (a := a.compare? b)

instance : Scalar.TotallyOrdered Binary64 where
  totalLt_of_lt {a b} ha hb h := by
    rw [lt_iff, compare?] at h
    rw [totalLt_iff ha hb]
    rcases orders_rank.compare_eq (encodes_toBits _) (encodes_toBits _) ha hb with
      ⟨s, t, hs, ht⟩ | hcompare
    · rw [hs, ht] at h
      cases h
    · rw [hcompare, Option.some.injEq] at h
      exact compare_lt_iff_lt.mp h
  eq_zero_or_of_beq {a b} ha hb h := by
    rw [beq_iff, compare?] at h
    rcases orders_rank.compare_eq (encodes_toBits _) (encodes_toBits _) ha hb with
      ⟨s, t, hs, ht⟩ | hcompare
    · refine .inl ?_
      rw [beq_iff, compare?, hs]
      rfl
    · rw [hcompare, Option.some.injEq, compare_eq_iff_eq] at h
      rw [Bool.eq_false_iff, Bool.eq_false_iff, Ne, Ne, totalLt_iff ha hb, totalLt_iff hb ha, h]
      exact .inr ⟨lt_irrefl _, lt_irrefl _⟩

end Binary64
end Relaxation
