import Relaxation.Fault

/-!
# When checks pass

Each check of `Relaxation.Fault` passes under one condition on its argument. The lemmas here turn
a chain of checks that came out well into the conditions of its links (`Checked.bind_eq_ok`), so
that no later proof unfolds a check.
-/

namespace Relaxation

variable {α β γ : Type}

theorem Checked.bind_eq_ok {x : Checked α β} {f : β → Checked α γ} {c : γ} :
    (x >>= f) = .ok c ↔ ∃ b, x = .ok b ∧ f b = .ok c := by
  cases x with
  | error e => simp [bind, Except.bind]
  | ok b => simp [bind, Except.bind]

theorem Checked.check_bind_eq_ok {x : Checked α Unit} {f : Unit → Checked α γ} {c : γ} :
    (x >>= f) = .ok c ↔ x = .ok () ∧ f () = .ok c := by
  rw [Checked.bind_eq_ok]
  exact ⟨fun ⟨_, hx, hf⟩ => ⟨hx, hf⟩, fun ⟨hx, hf⟩ => ⟨(), hx, hf⟩⟩

theorem Checked.pure_eq_ok {b c : β} : (pure b : Checked α β) = .ok c ↔ b = c :=
  ⟨fun h => Except.ok.inj h, fun h => h ▸ rfl⟩

/-- Every corner of the face is one of `count` vertices. -/
def Face.Within (count : Nat) (f : Face) : Prop := ∀ v ∈ f.corners, v < count

theorem Face.strayCorner?_eq_none_iff {f : Face} {count : Nat} :
    f.strayCorner? count = none ↔ f.Within count := by
  simp [Face.strayCorner?, Face.Within]

theorem Checked.forM_eq_ok_iff {check : β → Checked α Unit} {bs : List β} :
    bs.forM check = .ok () ↔ ∀ b ∈ bs, check b = .ok () := by
  simp only [List.forM_eq_forM]
  induction bs with
  | nil => simp [pure, Except.pure]
  | cons b bs ih => rw [List.forM_cons, check_bind_eq_ok, ih, List.forall_mem_cons]

theorem Checked.option_forM_eq_ok_iff {check : β → Checked α Unit} {o : Option β} :
    o.forM check = .ok () ↔ ∀ b ∈ o, check b = .ok () := by
  cases o with
  | none => simp [Option.forM, pure, Except.pure]
  | some b => simp [Option.forM]

/-- What holds at first and after each checked step from the last index down holds after all of
them. -/
theorem Checked.foldlM_finRange_induction {n : Nat} {motive : Fin (n + 1) → β → Prop}
    {f : β → Fin n → Checked α β} {b c : β} (last : motive (Fin.last n) b)
    (pred : ∀ i b c, motive i.succ b → f b i = .ok c → motive i.castSucc c)
    (h : (List.finRange n).reverse.foldlM f b = .ok c) : motive 0 c := by
  induction n generalizing c with
  | zero =>
    cases h
    exact last
  | succ n ih =>
    rw [List.finRange_succ, List.reverse_cons, List.foldlM_append, ← List.map_reverse,
      List.foldlM_map, bind_eq_ok] at h
    obtain ⟨d, hd, hc⟩ := h
    rw [List.foldlM_cons, bind_eq_ok] at hc
    obtain ⟨_, hc, ⟨⟩⟩ := hc
    refine pred 0 d c (ih (motive := fun i => motive i.succ) last (fun i b c hb hc => ?_) hd) hc
    rw [Fin.succ_castSucc]
    exact pred i.succ b c hb hc

section Sizes

variable {part : Part}

theorem requireAtLeast_eq_ok_iff {required : Nat} {points : List (Vec3 α)} :
    requireAtLeast part required points = .ok () ↔ required ≤ points.length := by
  unfold requireAtLeast
  split
  · simp; omega
  · simp; omega

theorem requireEven_eq_ok_iff {points : List (Vec3 α)} :
    requireEven part points = .ok () ↔ points ≠ [] ∧ points.length % 2 = 0 := by
  unfold requireEven
  split <;> rename_i h
  · have : points = [] ∨ points.length % 2 = 1 := by simpa using h
    simp only [reduceCtorEq, false_iff, not_and]
    exact fun hne => by have := this.resolve_left hne; omega
  · have : points ≠ [] ∧ points.length % 2 = 0 := by simpa using h
    simp [this]

theorem requireFaces_eq_ok_iff {count : Nat} {faces : List Face} :
    requireFaces count faces = (.ok () : Checked α Unit) ↔ ∀ f ∈ faces, f.Within count := by
  unfold requireFaces
  rw [Checked.forM_eq_ok_iff]
  have hfst : (∀ x ∈ faces.zipIdx, x.1.Within count) ↔ ∀ f ∈ faces, f.Within count := by
    rw [← List.forall_mem_map (f := Prod.fst) (P := Face.Within count), List.zipIdx_map_fst]
  refine (forall₂_congr fun x _ => ?_).trans hfst
  rw [← Face.strayCorner?_eq_none_iff]
  cases h : x.1.strayCorner? count <;> simp [h]

end Sizes

section Values

variable [Scalar α] {part : Part} {what : String}

/-- The number is finite and not negative. -/
def Usable (x : α) : Prop := Scalar.isFinite x = true ∧ ¬x < 0

theorem requireFinite_eq_ok_iff {value : α} :
    requireFinite part what value = .ok () ↔ Scalar.isFinite value = true := by
  unfold requireFinite
  split <;> simp_all

theorem requireNonNegative_eq_ok_iff {value : α} :
    requireNonNegative part what value = .ok () ↔ Usable value := by
  unfold requireNonNegative Usable
  rw [Checked.check_bind_eq_ok, requireFinite_eq_ok_iff]
  split <;> simp_all

theorem requireWeight_eq_ok_iff {weight : α} :
    requireWeight part weight = .ok () ↔ Usable weight :=
  requireNonNegative_eq_ok_iff

theorem requireFinitePoint_eq_ok_iff {point : Vec3 α} :
    requireFinitePoint part what point = .ok () ↔ point.isFinite = true := by
  unfold requireFinitePoint
  split <;> simp_all

end Values
end Relaxation
