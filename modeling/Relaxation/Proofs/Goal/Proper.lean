import Relaxation.Proofs.Goal.Built

/-!
# What constructors grant beyond soundness

A goal that can be built has a node. Its range, if it has one, is not inverted, and each of its
polygons has corners (`Goal.Built.proper`).
-/

namespace Relaxation

variable {α : Type} [Scalar α]

/-- The bounds of a range are in order and no polygon is without a corner. -/
def Aim.Proper : Aim α → Prop
  | clampLength min max => ¬max < min
  | convexPolygonCollision sizes => ∀ size ∈ sizes, size ≠ 0
  | _ => True

/-- Every constructor asks for a position at least. -/
theorem Aim.Accepted.ne_zero {n : Nat} {aim : Aim α} (h : aim.Accepted n) : n ≠ 0 := by
  cases aim with
  | equalLengths | parallelLines => exact h.1
  | onLine _ | onPlane _ | onCurve _ | onSurface _ => exact Nat.ne_of_gt h
  | coincident | colinear | coplanar | cocircular | cospherical =>
    exact Nat.ne_of_gt (Nat.lt_of_lt_of_le (Nat.succ_pos _) h)
  | constantPressure _ _ | constantVolumePressure _ _ | directionalWind _ _ =>
    exact Nat.ne_of_gt (Nat.lt_of_lt_of_le (Nat.succ_pos 2) h.1.1)
  | convexPolygonCollision sizes =>
    obtain ⟨hmany, hcorners, rfl⟩ := h
    obtain ⟨size, hsize⟩ := List.exists_mem_of_length_pos (Nat.lt_of_lt_of_le Nat.two_pos hmany)
    have hpos : 0 < size := Nat.lt_of_lt_of_le (Nat.succ_pos 2) (hcorners size hsize)
    exact Nat.ne_of_gt (List.sum_pos_iff_exists_pos_nat.mpr ⟨size, hsize, hpos⟩)
  | _ =>
    have := h.1
    omega

theorem Aim.Accepted.proper {n : Nat} {aim : Aim α} (h : aim.Accepted n) : aim.Proper := by
  cases aim with
  | clampLength _ _ => exact h.2.2.2
  | convexPolygonCollision _ =>
    exact fun size hsize => Nat.ne_of_gt (Nat.lt_of_lt_of_le (Nat.succ_pos 2) (h.2.1 size hsize))
  | _ => trivial

/-- A change that would put the ends of a range out of order is refused, and sizes cannot be
changed. -/
theorem Aim.Proper.amend {aim aim' : Aim α} {a : Amendment α} (hproper : aim.Proper)
    (h : aim.amend a = .ok aim') : aim'.Proper := by
  unfold Aim.amend at h
  split at h
  case h_1 | h_2 | h_3 | h_6 | h_11 | h_12 | h_13 | h_14 | h_15 | h_16 =>
    obtain ⟨_, h⟩ := Checked.check_bind_eq_ok.mp h
    cases Checked.pure_eq_ok.mp h
    trivial
  -- The new bounds are checked against each other, and against the old ones.
  case h_4 =>
    obtain ⟨hrange, h⟩ := Checked.check_bind_eq_ok.mp h
    cases Checked.pure_eq_ok.mp h
    exact (Goal.checkRange_eq_ok_iff.mp hrange).2.2
  case h_5 =>
    obtain ⟨_, _, h⟩ := Checked.bind_eq_ok.mp h
    cases Checked.pure_eq_ok.mp h
    trivial
  case h_7 | h_8 | h_9 | h_10 | h_17 =>
    cases h
    trivial
  case h_18 =>
    cases h
    exact hproper

namespace Goal

/-- The goal has a position to start from and a proper aim. -/
structure Proper (g : Goal α) : Prop where
  starts_ne_nil : g.starts ≠ []
  aim_proper : g.aim.Proper

theorem Made.proper {g : Goal α} (h : g.Made) : g.Proper := by
  obtain ⟨aim, starts, weight, rfl, haccepted, _⟩ := h.exists_accepted
  exact ⟨mt List.length_eq_zero_iff.mpr haccepted.ne_zero, haccepted.proper⟩

theorem Built.proper {g : Goal α} (h : g.Built) : g.Proper := by
  induction h with
  | made h _ => exact h.proper
  | change _ _ h ih =>
    obtain ⟨aim, haim, _, rfl⟩ := change_eq_ok_iff.mp h
    exact ⟨ih.starts_ne_nil, ih.aim_proper.amend haim⟩

end Goal
end Relaxation
